import PaymentsLab.Api.Backend
import PaymentsLab.Contracts.PythonText

/-!
# The limits service

`payments_api/services/limits_service.py`: the policy with its cache, the bounds of a transaction,
the daily limit with its counter in Redis, and the velocity limit with its sliding window. Every
part falls back to the database on a `RedisError`.
-/

namespace PaymentsLab

open Foundation

/-! ## The UTC day -/

/-- Microseconds of a day. -/
def dayMicros : Int := 86400000000

/-- Days since the epoch, as year, month and day. -/
def civilDate (days : Int) : Int × Int × Int :=
  let z := days + 719468
  let era := z / 146097
  let doe := z % 146097
  let yoe := (doe - doe / 1460 + doe / 36524 - doe / 146096) / 365
  let doy := doe - (365 * yoe + yoe / 4 - yoe / 100)
  let mp := (5 * doy + 2) / 153
  let month := if mp < 10 then mp + 3 else mp - 9
  (yoe + era * 400 + (if month ≤ 2 then 1 else 0), month, doy - (153 * mp + 2) / 5 + 1)

/-- The last `width` decimal digits. -/
def lastDigits : (width : Nat) → Nat → List Char
  | 0, _ => []
  | width + 1, n => lastDigits width (n / 10) ++ [Nat.digitChar (n % 10)]

/-- `strftime("%Y%m%d")`, for the years of four digits. -/
def dateKey (t : Instant) : String :=
  let (year, month, day) := civilDate (t / dayMicros)
  String.ofList (lastDigits 4 year.toNat ++ lastDigits 2 month.toNat ++ lastDigits 2 day.toNat)

example : dateKey 0 = "19700101" := by decide

example : dateKey 1709208000000000 = "20240229" := by decide

/-- `_utc_day_start`. -/
def utcDayStart (t : Instant) : Instant :=
  t / dayMicros * dayMicros

/-- `_seconds_until_day_end`: until 23:59:59, and one second at least. -/
def secondsUntilDayEnd (t : Instant) : Int :=
  max 1 (Int.tdiv (utcDayStart t + 86399000000 - t) 1000000)

/-- `int(text)` of a text in Redis. -/
def StoredText.pythonInt? : StoredText → Option Int
  | .int n => some n
  | .text s => PaymentsLab.pythonInt? s.toList
  | _ => none

/-! ## `LimitsService` -/

namespace LimitsService

open ApiProgram

/-- `LimitsEvaluation`. -/
structure Evaluation where
  policy : LimitsPolicy
  velocityCount : Int
  deriving DecidableEq

/-- `LimitsPolicyDTO.model_validate_json`. -/
def validatePolicy : StoredText → ApiProgram LimitsPolicy
  | .policy policy => pure policy
  | _ => throw .validationError

/-- The first `try` of `_get_policy`: the cached policy, if any. -/
def cachedPolicy (rail : PaymentMethod) : ApiProgram (Option LimitsPolicy) :=
  tryCatch
    (do
      match ← redis (.get (limitsPolicyKey rail)) with
      | some (.text "") => pure none
      | some text => some <$> validatePolicy text
      | none => pure none)
    fun
    | .redisError => pure none
    | .validationError => pure none
    | e => throw e

/-- The second `try` of `_get_policy`. -/
def cachePolicy (cacheTtlSeconds : Int) (rail : PaymentMethod) (policy : LimitsPolicy) :
    ApiProgram Unit :=
  tryCatch (redis (.set (limitsPolicyKey rail) (.policy policy) cacheTtlSeconds)) fun
    | .redisError => pure ()
    | e => throw e

/-- `_get_policy`. -/
def getPolicy (cacheTtlSeconds : Int) (rail : PaymentMethod) : ApiProgram LimitsPolicy := do
  match ← cachedPolicy rail with
  | some policy => pure policy
  | none =>
    match ← getByRail rail with
    | none => throw (.app (.validation ("Missing limits policy for rail " ++ rail.value)))
    | some entity =>
      cachePolicy cacheTtlSeconds rail entity
      pure entity

/-- `_enforce_transaction_amount`. -/
def enforceTransactionAmount (policy : LimitsPolicy) (amount : Decimal) : ApiProgram Unit := do
  if amount < policy.minAmount then
    throw (.app (.limitExceeded ("Amount below min limit for " ++ policy.rail.value)))
  if policy.maxAmount < amount then
    throw (.app (.limitExceeded ("Amount above max limit for " ++ policy.rail.value)))

/-- `_raise_daily_limit_exceeded`. -/
def raiseDailyLimitExceeded {α : Type} (rail : PaymentMethod) : ApiProgram α :=
  throw (.app (.limitExceeded ("Daily limit exceeded for rail " ++ rail.value)))

/-- `_raise_velocity_limit_exceeded`. -/
def raiseVelocityLimitExceeded {α : Type} (rail : PaymentMethod) : ApiProgram α :=
  throw (.app (.limitExceeded ("Velocity limit exceeded for rail " ++ rail.value)))

/-- `_redis_get_int`. -/
def redisGetInt (key : String) : ApiProgram Int := do
  match ← redis (.get key) with
  | none => pure 0
  | some (.text "") => pure 0
  | some text =>
    match text.pythonInt? with
    | some n => pure n
    | none => throw .valueError

/-- The `try` of `_enforce_daily_limit`: the counter is read, compared and set. -/
def countDailyAmount (key : String) (rail : PaymentMethod) (amount : Decimal)
    (policy : LimitsPolicy) : ApiProgram Unit := do
  let current ← redisGetInt key
  let projected := current + amount.asCents
  if policy.dailyLimitAmount.asCents < projected then raiseDailyLimitExceeded rail
  let t ← now
  redis (.set key (.int projected) (secondsUntilDayEnd t))

/-- The fallback of `_enforce_daily_limit`. -/
def checkDailyTotal (customerId : String) (rail : PaymentMethod) (amount : Decimal)
    (policy : LimitsPolicy) : ApiProgram Unit := do
  let t ← now
  let total ← sumOutgoingSince customerId rail (utcDayStart t)
  if policy.dailyLimitAmount < total + amount then raiseDailyLimitExceeded rail

/-- `_enforce_daily_limit`. -/
def enforceDailyLimit (customerId : String) (rail : PaymentMethod) (amount : Decimal)
    (policy : LimitsPolicy) : ApiProgram Unit := do
  let t ← now
  tryCatch (countDailyAmount (limitsDailyKey (dateKey t) customerId rail) rail amount policy) fun
    | .redisError => checkDailyTotal customerId rail amount policy
    | .valueError => checkDailyTotal customerId rail amount policy
    | e => throw e

/-- The `try` of `_enforce_velocity_limit`: the window is pruned, counted and extended. -/
def countVelocity (t : Instant) (key : String) (rail : PaymentMethod) (policy : LimitsPolicy) :
    ApiProgram Int := do
  redis (.zremrangebyscore key 0 (t - policy.velocityWindowSeconds * 1000000))
  let count : Nat ← redis (.zcard key)
  if policy.velocityLimitCount ≤ count then raiseVelocityLimitExceeded rail
  redis (.zadd key (.velocityMember t count) t)
  redis (.expire key policy.velocityWindowSeconds)
  return count + 1

/-- The fallback of `_enforce_velocity_limit`. -/
def checkVelocityCount (customerId : String) (rail : PaymentMethod) (policy : LimitsPolicy)
    (since : Instant) : ApiProgram Int := do
  let count ← countOutgoingSince customerId rail since
  if policy.velocityLimitCount ≤ count then raiseVelocityLimitExceeded rail
  return count + 1

/-- `_enforce_velocity_limit`. -/
def enforceVelocityLimit (customerId : String) (rail : PaymentMethod) (policy : LimitsPolicy) :
    ApiProgram Int := do
  let t ← now
  tryCatch (countVelocity t (limitsVelocityKey customerId rail) rail policy) fun
    | .redisError =>
      checkVelocityCount customerId rail policy (t - policy.velocityWindowSeconds * 1000000)
    | e => throw e

/-- `enforce`. -/
def enforce (cacheTtlSeconds : Int) (customerId : String) (rail : PaymentMethod)
    (amount : Decimal) : ApiProgram Evaluation := do
  let policy ← getPolicy cacheTtlSeconds rail
  enforceTransactionAmount policy amount
  enforceDailyLimit customerId rail amount policy
  let velocityCount ← enforceVelocityLimit customerId rail policy
  return ⟨policy, velocityCount⟩

/-- `enforce` up to the end of the daily check. -/
def dailyChecked (cacheTtlSeconds : Int) (customerId : String) (rail : PaymentMethod)
    (amount : Decimal) : ApiProgram LimitsPolicy := do
  let policy ← getPolicy cacheTtlSeconds rail
  enforceTransactionAmount policy amount
  enforceDailyLimit customerId rail amount policy
  return policy

/-- After the daily check comes that of the velocity. -/
theorem enforce_eq (cacheTtlSeconds : Int) (customerId : String) (rail : PaymentMethod)
    (amount : Decimal) :
    enforce cacheTtlSeconds customerId rail amount =
      dailyChecked cacheTtlSeconds customerId rail amount >>= fun policy => do
        let velocityCount ← enforceVelocityLimit customerId rail policy
        return ⟨policy, velocityCount⟩ := by
  unfold enforce dailyChecked
  simp only [bind_assoc, pure_bind]

end LimitsService

end PaymentsLab
