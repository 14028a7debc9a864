import PaymentsLab.Api.Backend
import PaymentsLab.Contracts.PaymentRails

/-!
# KYC, rate limiter and risk score

`payments_api/services/kyc_service.py`, `rate_limiter_service.py` and `risk_service.py`, with the
settings of the API they are built from (`payments_api/core/config.py`).
-/

namespace PaymentsLab

open Foundation

/-- `Settings`, with the bounds of its fields. -/
structure ApiSettings where
  idempotencyTtlSeconds : Int
  limitsPolicyCacheTtlSeconds : Int
  merchantRateLimit : Int
  customerRateLimit : Int
  accountRateLimit : Int
  rateLimitWindowSeconds : Int
  amlTotalWindowSeconds : Int
  amlTotalThresholdAmount : Decimal
  amlStructuringWindowSeconds : Int
  amlStructuringCountThreshold : Int
  amlBlocklistDestinations : List String
  riskReviewThreshold : Int
  riskBlockThreshold : Int
  idempotencyTtlSeconds_ge : 10 ≤ idempotencyTtlSeconds
  limitsPolicyCacheTtlSeconds_ge : 10 ≤ limitsPolicyCacheTtlSeconds
  merchantRateLimit_ge : 1 ≤ merchantRateLimit
  customerRateLimit_ge : 1 ≤ customerRateLimit
  accountRateLimit_ge : 1 ≤ accountRateLimit
  rateLimitWindowSeconds_ge : 1 ≤ rateLimitWindowSeconds
  amlTotalWindowSeconds_ge : 60 ≤ amlTotalWindowSeconds
  amlTotalThresholdAmount_ge : 0 ≤ amlTotalThresholdAmount
  amlStructuringWindowSeconds_ge : 60 ≤ amlStructuringWindowSeconds
  amlStructuringCountThreshold_ge : 1 ≤ amlStructuringCountThreshold
  riskReviewThreshold_ge : 1 ≤ riskReviewThreshold
  riskReviewThreshold_le : riskReviewThreshold ≤ 100
  riskBlockThreshold_ge : 1 ≤ riskBlockThreshold
  riskBlockThreshold_le : riskBlockThreshold ≤ 100

/-- The defaults of `Settings`. -/
def ApiSettings.default : ApiSettings where
  idempotencyTtlSeconds := 300
  limitsPolicyCacheTtlSeconds := 60
  merchantRateLimit := 120
  customerRateLimit := 80
  accountRateLimit := 80
  rateLimitWindowSeconds := 60
  amlTotalWindowSeconds := 600
  amlTotalThresholdAmount := ⟨50000, -1⟩
  amlStructuringWindowSeconds := 900
  amlStructuringCountThreshold := 3
  amlBlocklistDestinations := ["dest-blocked-001", "dest-blocked-002"]
  riskReviewThreshold := 50
  riskBlockThreshold := 80
  idempotencyTtlSeconds_ge := by decide
  limitsPolicyCacheTtlSeconds_ge := by decide
  merchantRateLimit_ge := by decide
  customerRateLimit_ge := by decide
  accountRateLimit_ge := by decide
  rateLimitWindowSeconds_ge := by decide
  amlTotalWindowSeconds_ge := by decide
  amlTotalThresholdAmount_ge := by decide
  amlStructuringWindowSeconds_ge := by decide
  amlStructuringCountThreshold_ge := by decide
  riskReviewThreshold_ge := by decide
  riskReviewThreshold_le := by decide
  riskBlockThreshold_ge := by decide
  riskBlockThreshold_le := by decide

/-! ## `KycService` -/

namespace KycService

/-- `enforce`. Every rail has a profile, so the lookup of the minimum level does not fail. -/
def enforce (customer : Customer) (rail : PaymentMethod) : ApiProgram Unit := do
  if customer.status ≠ .active then throw (.app (.kycDenied "Customer is suspended"))
  let required := minimumKycLevelForMethod rail
  if kycLevelRank customer.kycLevel < kycLevelRank required then
    throw (.app (.kycDenied ("Customer KYC level " ++ customer.kycLevel.value ++
      " is below required " ++ required.value)))

end KycService

/-! ## `RateLimiterService` -/

namespace RateLimiterService

open ApiProgram

variable (cfg : ApiSettings)

/-- `_allow`. -/
def allow (dimension : RateLimitDimension) (value : String) (bucket limit : Int) :
    ApiProgram Bool :=
  tryCatch
    (do
      let current : Int ← redis (.incr (rateLimitKey dimension value bucket))
      if current = 1 then
        redis (.expire (rateLimitKey dimension value bucket) cfg.rateLimitWindowSeconds)
      return current ≤ limit)
    fun
    | .redisError => pure true
    | e => throw e

/-- The loop of `enforce`. -/
def enforceChecks (bucket : Int) : List (RateLimitDimension × String × Int) → ApiProgram Unit
  | [] => pure ()
  | (dimension, value, limit) :: checks => do
    if !(← allow cfg dimension value bucket limit) then
      throw (.app (.rateLimited ("Rate limited by " ++ dimension.value) dimension))
    enforceChecks bucket checks

/-- `enforce`. -/
def enforce (merchantId customerId accountId : String) : ApiProgram Unit := do
  let t ← now
  enforceChecks cfg (Int.tdiv t (cfg.rateLimitWindowSeconds * 1000000))
    [(.merchant, merchantId, cfg.merchantRateLimit), (.customer, customerId, cfg.customerRateLimit),
      (.account, accountId, cfg.accountRateLimit)]

end RateLimiterService

/-! ## `RiskScoreService` -/

namespace RiskScoreService

open ApiProgram

/-- `RiskContext`. -/
structure Context where
  amount : Decimal
  policyMax : Decimal
  velocityCount : Int
  velocityLimit : Int
  repeatedFailures : Int
  isNewCustomer : Bool
  customerKyc : KycLevel
  destinationSeen : Bool

namespace Context

variable (context : Context)

/-- `AmountNearMaxRule`. -/
def amountNearMax : Int :=
  if context.policyMax * ⟨9, -1⟩ ≤ context.amount then 25 else 0

/-- `VelocitySpikeRule`; the counts are small enough to compare their ratio with `0.8` exactly. -/
def velocitySpike : Int :=
  if context.velocityLimit ≤ 0 then 0
  else if 4 * context.velocityLimit ≤ 5 * context.velocityCount then 20
  else 0

/-- `RepeatedFailuresRule`. -/
def repeatedFailuresScore : Int :=
  if 3 ≤ context.repeatedFailures then 25
  else if 1 ≤ context.repeatedFailures then 10
  else 0

/-- `NewCustomerLowKycRule`. -/
def newCustomerLowKyc : Int :=
  if context.isNewCustomer ∧ context.customerKyc ∈ [.none, .basic] then 20 else 0

/-- `NewDestinationRule`. -/
def newDestination : Int :=
  if !context.destinationSeen then 15 else 0

/-- The score of all rules. -/
def score : Int :=
  min 100 (context.amountNearMax + context.velocitySpike + context.repeatedFailuresScore +
    context.newCustomerLowKyc + context.newDestination)

end Context

/-- `_is_new_customer`. -/
def isNewCustomer (customer : Customer) (now : Instant) : Bool :=
  now - customer.createdAt < 7 * 86400000000

/-- `_decision_from_score`. -/
def decisionFromScore (cfg : ApiSettings) (score : Int) : RiskDecision :=
  if cfg.riskBlockThreshold ≤ score then .block
  else if cfg.riskReviewThreshold ≤ score then .review
  else .allow

/-- `evaluate`. -/
def evaluate (cfg : ApiSettings) (customer : Customer) (amount : Decimal) (policy : LimitsPolicy)
    (velocityCount : Int) (destination : Option String) : ApiProgram (Int × RiskDecision) := do
  let t ← now
  let repeatedFailures ← countFailuresSince customer.customerId (t - 86400000000)
  let seen ← destinationSeen customer.customerId destination
  let context : Context :=
    { amount := amount
      policyMax := policy.maxAmount
      velocityCount := velocityCount
      velocityLimit := policy.velocityLimitCount
      repeatedFailures := repeatedFailures
      isNewCustomer := isNewCustomer customer t
      customerKyc := customer.kycLevel
      destinationSeen := seen }
  return (context.score, decisionFromScore cfg context.score)

end RiskScoreService

end PaymentsLab
