import PaymentsLab.Api.AmlService
import PaymentsLab.Api.CreatePayment
import PaymentsLab.Api.LimitsService

/-!
# The program of `CreatePaymentUseCase.execute`

The use case with all its controls, as one program of the API's commands. `Create.Run` is the same
code with the controls as one step; both take the rows they write from the same definitions.
-/

namespace PaymentsLab

open Foundation

namespace IdempotencyService

open ApiProgram

/-- `acquire`. -/
def acquire (cfg : ApiSettings) (merchantId idempotencyKey : String) : ApiProgram Bool :=
  tryCatch
    (redis (.setNx (Create.idempotencyScopedKey merchantId idempotencyKey) (.int 1)
      cfg.idempotencyTtlSeconds))
    fun
    | .redisError => pure true
    | e => throw e

end IdempotencyService

namespace Create

namespace Run

open ApiProgram

variable (cfg : ApiSettings) (r : Run)

/-- `_try_return_replayed_response`. -/
def tryReturnReplayedResponse : ApiProgram (Option PaymentAcceptedResponse) := do
  let snapshot : Option IdempotencyRecord ←
    issue (.getSnapshot r.context.merchantId r.context.idempotencyKey)
  return snapshot.map (·.responsePayload)

/-- `get_by_merchant_and_idempotency`, as a response. -/
def existingResponse : ApiProgram (Option PaymentAcceptedResponse) := do
  let payment : Option Payment ←
    issue (.getByMerchantAndIdempotency r.context.merchantId r.context.idempotencyKey)
  return payment.map r.buildResponseFromExistingPayment

/-- The loop of `_resolve_pending_idempotent_request`, with `n` iterations left. -/
def resolvePending : Nat → ApiProgram PaymentAcceptedResponse
  | 0 => throw (.app .idempotencyConflict)
  | n + 1 => do
    match ← r.tryReturnReplayedResponse with
    | some response => return response
    | none =>
      match ← r.existingResponse with
      | some response => return response
      | none => resolvePending n

/-- `_load_customer_or_raise`. -/
def loadCustomerOrRaise : ApiProgram Customer := do
  let customer : Option Customer ← issue (.getById r.context.customerId)
  match customer with
  | some customer => return customer
  | none => throw (.app (.validation "Customer not found"))

/-- `_run_pre_checks`. -/
def runPreChecks (customer : Customer) : ApiProgram LimitsService.Evaluation := do
  KycService.enforce customer r.request.method
  let evaluation ← LimitsService.enforce cfg.limitsPolicyCacheTtlSeconds r.context.customerId
    r.request.method r.request.amount
  RateLimiterService.enforce cfg r.context.merchantId r.context.customerId r.context.accountId
  return evaluation

/-- `_evaluate_controls`. -/
def evaluateControls (customer : Customer) (evaluation : LimitsService.Evaluation) :
    ApiProgram ControlDecision := do
  let (riskScore, riskDecision) ← RiskScoreService.evaluate cfg customer r.request.amount
    evaluation.policy evaluation.velocityCount r.request.destination
  let amlDecision ← AmlRuleEngine.evaluate cfg r.context.customerId r.request.method
    r.request.amount r.request.destination evaluation.policy
  return ⟨riskScore, riskDecision, amlDecision⟩

/-- `_resolve_replayed_after_conflict`, and what follows it. -/
def resolveReplayedAfterConflict : ApiProgram PaymentAcceptedResponse := do
  match ← r.tryReturnReplayedResponse with
  | some response => return response
  | none =>
    match ← r.existingResponse with
    | some response => return response
    | none => throw (.app .idempotencyConflict)

/-- `_after_commit_observability`. -/
def afterCommitObservability (response : PaymentAcceptedResponse) : ApiProgram Unit := do
  if response.status ≠ .blocked then
    AmlRuleEngine.recordOutgoing cfg r.context.customerId r.request.method r.request.amount
  let _queueSize : Int ← issue .countInReview

/-- `_persist_payment_transaction` and what follows it. `startedAt` is the beginning of the
transaction; the event's due time is the client's clock. -/
def persistAndObserve (startedAt : Instant) (decision : ControlDecision) :
    ApiProgram PaymentAcceptedResponse := do
  let paymentId : UUID ← issue .newUuid
  let response := r.buildPaymentResponse paymentId decision.finalStatus decision.riskDecision
    decision.amlDecision
  let eventId : UUID ← issue .newUuid
  let t ← now
  let event := (r.outboxEvent response eventId startedAt).map fun event =>
    { event with nextAttemptAt := t }
  let committed : Bool ← issue (.commit (r.paymentRow decision response startedAt) event
    (r.idempotencyRecord response))
  if committed then
    r.afterCommitObservability cfg response
    return response
  else r.resolveReplayedAfterConflict

/-- `_create_payment_with_controls`. -/
def createPaymentWithControls (startedAt : Instant) : ApiProgram PaymentAcceptedResponse := do
  let customer ← r.loadCustomerOrRaise
  let evaluation ← r.runPreChecks cfg customer
  let decision ← r.evaluateControls cfg customer evaluation
  r.persistAndObserve cfg startedAt decision

/-- `execute`. The first statement of the session begins its transaction. -/
def execute : ApiProgram PaymentAcceptedResponse := do
  let startedAt : Instant ← issue .begin
  match ← r.tryReturnReplayedResponse with
  | some response => return response
  | none =>
    if ← IdempotencyService.acquire cfg r.context.merchantId r.context.idempotencyKey then
      r.createPaymentWithControls cfg startedAt
    else r.resolvePending pollLimit

end Run

end Create

end PaymentsLab
