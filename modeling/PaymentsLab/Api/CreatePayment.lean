import PaymentsLab.Api.Errors
import PaymentsLab.System.World

/-!
# Runs of `CreatePaymentUseCase.execute`

`payments_api/use_cases/create_payment.py`, cut at every statement that touches the database or the
idempotency gate. The controls between the gate and the transaction touch neither, so a run takes
them in one step, with any result; their code is modelled in the modules on the controls.

The transaction of a creation is flushed by its commit: the three inserts and the commit are one
step, which the unique constraints refuse with an `IntegrityError` where the scope, the payment id
or the event id is taken.
-/

namespace PaymentsLab

open Foundation

namespace Create

/-- `RequestContext`. -/
structure RequestContext where
  merchantId : String
  customerId : String
  accountId : String
  idempotencyKey : String
  deriving DecidableEq

/-- `_resolve_status_from_decisions`. -/
def resolveStatusFromDecisions (risk : RiskDecision) (aml : AmlDecision) : PaymentStatus :=
  if risk = .block ∨ aml = .block then .blocked
  else if risk = .review ∨ aml = .review then .inReview
  else .received

/-- `ControlDecision`; its `final_status` is `resolveStatusFromDecisions`. -/
structure ControlDecision where
  riskScore : Int
  riskDecision : RiskDecision
  amlDecision : AmlDecision
  deriving DecidableEq

def ControlDecision.finalStatus (d : ControlDecision) : PaymentStatus :=
  resolveStatusFromDecisions d.riskDecision d.amlDecision

/-- `idempotency_scoped_key`. -/
def idempotencyScopedKey (merchantId idempotencyKey : String) : String :=
  merchantId ++ ":" ++ idempotencyKey

inductive Pc
  /-- the first `_try_return_replayed_response` -/
  | start
  /-- `_acquire_idempotency_lock` -/
  | gate
  /-- `_resolve_pending_idempotent_request`: the snapshot, in iteration `i` -/
  | poll (i : Nat)
  /-- `_resolve_pending_idempotent_request`: the payment row, in iteration `i` -/
  | pollPayment (i : Nat)
  /-- from `_load_customer_or_raise` to `_evaluate_controls` -/
  | controls
  /-- the transaction -/
  | persist (decision : ControlDecision) (response : PaymentAcceptedResponse)
  /-- `_resolve_replayed_after_conflict`: the snapshot -/
  | conflict
  /-- `_resolve_replayed_after_conflict`: the payment row -/
  | conflictPayment
  /-- `_after_commit_observability` -/
  | committed (response : PaymentAcceptedResponse)
  | returned (response : PaymentAcceptedResponse)
  | raised (error : AppError)
  | crashed

/-- The response a run has returned or is about to return. -/
def Pc.answer : Pc → Option PaymentAcceptedResponse
  | .committed response => some response
  | .returned response => some response
  | _ => none

/-- The response a run has returned. -/
def Pc.response : Pc → Option PaymentAcceptedResponse
  | .returned response => some response
  | _ => none

theorem Pc.response_eq_some {pc : Pc} {r : PaymentAcceptedResponse} :
    pc.response = some r ↔ pc = .returned r := by
  cases pc <;> simp [response]

/-- A run of `execute`. -/
structure Run where
  context : RequestContext
  request : CreatePaymentRequest
  traceId : String
  traceparent : Option String
  pc : Pc

/-- What the `SET NX` of the gate gives. On a `RedisError` the command may have been applied. -/
inductive GateReply
  | answered
  | redisError (applied : Bool)
  deriving DecidableEq

inductive Action
  | readSnapshot
  | acquire (reply : GateReply)
  | readPayment
  | runControls (result : Except AppError ControlDecision) (paymentId : UUID)
  | persist (eventId : UUID) (now : Instant)
  | observe
  | crash

/-- `_build_payment_response`. -/
def Run.buildPaymentResponse (r : Run) (paymentId : UUID) (status : PaymentStatus)
    (riskDecision : RiskDecision) (amlDecision : AmlDecision) : PaymentAcceptedResponse where
  paymentId := paymentId
  status := status
  traceId := r.traceId
  riskDecision := riskDecision
  amlDecision := amlDecision

/-- `_build_response_from_existing_payment`. -/
def Run.buildResponseFromExistingPayment (r : Run) (payment : Payment) : PaymentAcceptedResponse :=
  r.buildPaymentResponse payment.paymentId payment.status payment.riskDecision payment.amlDecision

/-- The snapshot of the run's scope. -/
def Run.snapshot (r : Run) (w : World) : Option IdempotencyRecord :=
  IdempotencyRepository.getSnapshot w r.context.merchantId r.context.idempotencyKey

/-- The payment row of the run's scope. -/
def Run.existingPayment (r : Run) (w : World) : Option Payment :=
  PaymentRepository.getByMerchantAndIdempotency w r.context.merchantId r.context.idempotencyKey

/-- The row `create_payment` adds. -/
def Run.paymentRow (r : Run) (decision : ControlDecision) (response : PaymentAcceptedResponse)
    (now : Instant) : Payment where
  paymentId := response.paymentId
  merchantId := r.context.merchantId
  customerId := r.context.customerId
  accountId := r.context.accountId
  amount := r.request.amount
  currency := r.request.currency
  method := r.request.method
  destination := r.request.destination
  status := response.status
  idempotencyKey := r.context.idempotencyKey
  riskScore := decision.riskScore
  riskDecision := decision.riskDecision
  amlDecision := decision.amlDecision
  lastError := none
  createdAt := now
  version := 1

/-- The event `_persist_outbox_events` adds, if any. -/
def Run.outboxEvent (r : Run) (response : PaymentAcceptedResponse) (eventId : UUID)
    (now : Instant) : Option OutboxEvent :=
  match response.status with
  | .received =>
    some (.new eventId response.paymentId .paymentRequested
      (.paymentRequested response.paymentId r.context.merchantId r.traceId r.traceparent) now)
  | .inReview =>
    some (.new eventId response.paymentId .paymentReviewRequired
      (.paymentReviewRequired response.paymentId r.context.merchantId
        ReviewReason.riskOrAmlReview.value) now)
  | _ => none

/-- The row `create_snapshot` adds. -/
def Run.idempotencyRecord (r : Run) (response : PaymentAcceptedResponse) : IdempotencyRecord where
  merchantId := r.context.merchantId
  idempotencyKey := r.context.idempotencyKey
  paymentId := response.paymentId
  statusCode := 202
  responsePayload := response

/-- The scope is taken in one of the two tables. -/
def Run.ScopeTaken (r : Run) (w : World) : Prop :=
  (r.snapshot w).isSome ∨ (r.existingPayment w).isSome

instance (r : Run) (w : World) : Decidable (r.ScopeTaken w) :=
  inferInstanceAs (Decidable (_ ∨ _))

/-- The inserts of `_persist_payment_transaction`; undefined where a primary key is taken. -/
def Run.insertRows (r : Run) (w : World) (t : Session) (decision : ControlDecision)
    (response : PaymentAcceptedResponse) (eventId : UUID) (now : Instant) : Option World :=
  (w.payments.insert t response.paymentId (r.paymentRow decision response now).inserted).bind
    fun payments =>
      let w' := { w with
        payments := payments
        idempotency := w.idempotency ++ [r.idempotencyRecord response] }
      match r.outboxEvent response eventId now with
      | some event => OutboxRepository.addEvent w' t event
      | none => some w'

/-- `_persist_payment_transaction` up to the commit: `none` is the `IntegrityError`. -/
def Run.persistPaymentTransaction (r : Run) (w : World) (t : Session) (decision : ControlDecision)
    (response : PaymentAcceptedResponse) (eventId : UUID) (now : Instant) : Option World :=
  if r.ScopeTaken w then none
  else (r.insertRows w t decision response eventId now).map (·.commit t)

/-- The gate's `SET NX`, and whether the run goes on as the one that holds it. -/
def Run.acquire (r : Run) (w : World) : GateReply → World × Bool
  | .answered =>
    let key := idempotencyScopedKey r.context.merchantId r.context.idempotencyKey
    if w.gate key then (w, false) else ({ w with gate := Function.update w.gate key true }, true)
  | .redisError applied =>
    let key := idempotencyScopedKey r.context.merchantId r.context.idempotencyKey
    (if applied then { w with gate := Function.update w.gate key true } else w, true)

/-- Iterations of `_resolve_pending_idempotent_request`. -/
def pollLimit : Nat := 5

/-- One step of the run that owns session `t`. -/
def Run.step (t : Session) (w : World) (r : Run) (a : Action) : Option (World × Run) :=
  match r.pc, a with
  | .start, .readSnapshot =>
    match r.snapshot w with
    | some record => some (w, { r with pc := .returned record.responsePayload })
    | none => some (w, { r with pc := .gate })
  | .gate, .acquire reply =>
    let (w', holds) := r.acquire w reply
    some (w', { r with pc := if holds then .controls else .poll 0 })
  | .poll i, .readSnapshot =>
    match r.snapshot w with
    | some record => some (w, { r with pc := .returned record.responsePayload })
    | none => some (w, { r with pc := .pollPayment i })
  | .pollPayment i, .readPayment =>
    match r.existingPayment w with
    | some payment =>
      some (w, { r with pc := .returned (r.buildResponseFromExistingPayment payment) })
    | none =>
      some (w, { r with pc :=
        if i + 1 < pollLimit then .poll (i + 1) else .raised .idempotencyConflict })
  | .controls, .runControls result paymentId =>
    match result with
    | .error error => some (w, { r with pc := .raised error })
    | .ok decision =>
      let response := r.buildPaymentResponse paymentId decision.finalStatus decision.riskDecision
        decision.amlDecision
      some (w, { r with pc := .persist decision response })
  | .persist decision response, .persist eventId now =>
    match r.persistPaymentTransaction w t decision response eventId now with
    | some w' => some (w', { r with pc := .committed response })
    | none => some (w, { r with pc := .conflict })
  | .conflict, .readSnapshot =>
    match r.snapshot w with
    | some record => some (w, { r with pc := .returned record.responsePayload })
    | none => some (w, { r with pc := .conflictPayment })
  | .conflictPayment, .readPayment =>
    match r.existingPayment w with
    | some payment =>
      some (w, { r with pc := .returned (r.buildResponseFromExistingPayment payment) })
    | none => some (w, { r with pc := .raised .idempotencyConflict })
  | .committed response, .observe => some (w, { r with pc := .returned response })
  | .returned _, _ => none
  | .raised _, _ => none
  | .crashed, _ => none
  | _, .crash => some (w, { r with pc := .crashed })
  | _, _ => none

end Create

end PaymentsLab
