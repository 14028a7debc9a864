import PaymentsLab.Api.Errors
import PaymentsLab.System.World

/-!
# The review use cases

`ApproveReviewPaymentUseCase.execute` and `RejectReviewPaymentUseCase.execute`
(`payments_api/use_cases/review_payment.py`), cut at every statement: the load with its status
check, the `UPDATE`, the commit (which flushes the event of an approval), and the count of the
review queue after it. `decide` takes the first three at once: a call that nothing interleaves.
-/

namespace PaymentsLab

open Foundation

namespace Review

inductive Decision
  | approve | reject
  deriving DecidableEq

/-- The status a decision writes. -/
def Decision.status : Decision → PaymentStatus
  | .approve => .received
  | .reject => .blocked

/-- The `last_error` a decision writes. -/
def Decision.lastError : Decision → Option String
  | .approve => none
  | .reject => some PaymentFailureReason.manualReviewRejected.value

/-- `_load_review_payment_or_raise`. -/
def loadReviewPaymentOrRaise (w : World) (t : Session) (paymentId : UUID) :
    Except AppError Payment :=
  match PaymentRepository.getById w t paymentId with
  | none => .error (.validation "Payment not found")
  | some payment =>
    if payment.status = .inReview then .ok payment
    else .error (.validation "Payment is not in review")

inductive Pc
  | start
  | loaded (payment : Payment)
  | updated (payment : Payment)
  | committed (payment : Payment)
  | returned (response : PaymentAcceptedResponse)
  | raised (error : AppError)
  | crashed

/-- What the call has returned. -/
def Pc.response : Pc → Option PaymentAcceptedResponse
  | .returned response => some response
  | _ => none

/-- What the call has raised. -/
def Pc.error : Pc → Option AppError
  | .raised error => some error
  | _ => none

theorem Pc.response_eq_some {pc : Pc} {r : PaymentAcceptedResponse} :
    pc.response = some r ↔ pc = .returned r := by
  cases pc <;> simp [response]

theorem Pc.error_eq_some {pc : Pc} {e : AppError} : pc.error = some e ↔ pc = .raised e := by
  cases pc <;> simp [error]

/-- A run of one of the two use cases. -/
structure Call where
  decision : Decision
  paymentId : UUID
  traceId : String
  traceparent : Option String
  pc : Pc

inductive Action
  | load
  | updateStatus
  | commit (eventId : UUID) (now : Instant)
  | decide (eventId : UUID) (now : Instant)
  | recordReviewQueueSize
  | crash
  deriving DecidableEq

/-- `_enqueue_payment_requested`. -/
def enqueuePaymentRequested (w : World) (t : Session) (c : Call) (payment : Payment)
    (eventId : UUID) (now : Instant) : Option World :=
  OutboxRepository.addEvent w t
    (.new eventId c.paymentId .paymentRequested
      (.paymentRequested c.paymentId payment.merchantId c.traceId c.traceparent) now)

/-- `_build_review_response`. -/
def buildReviewResponse (c : Call) (payment : Payment) : PaymentAcceptedResponse where
  paymentId := c.paymentId
  status := c.decision.status
  traceId := c.traceId
  riskDecision := payment.riskDecision
  amlDecision := payment.amlDecision

/-- The load and its check. -/
def load (t : Session) (w : World) (c : Call) : Call :=
  match loadReviewPaymentOrRaise w t c.paymentId with
  | .ok payment => { c with pc := .loaded payment }
  | .error error => { c with pc := .raised error }

/-- The `UPDATE`. -/
def updateStatus (t : Session) (w : World) (c : Call) (payment : Payment) :
    Option (World × Call) :=
  (PaymentRepository.updateStatus w t c.paymentId c.decision.status c.decision.lastError).map
    fun r => (r.1, { c with pc := .updated payment })

/-- The event of an approval, and the commit. -/
def commit (t : Session) (w : World) (c : Call) (payment : Payment) (eventId : UUID)
    (now : Instant) : Option (World × Call) :=
  match c.decision with
  | .approve =>
    (enqueuePaymentRequested w t c payment eventId now).map fun w' =>
      (w'.commit t, { c with pc := .committed payment })
  | .reject => some (w.commit t, { c with pc := .committed payment })

/-- One step of the call that owns session `t`. -/
def Call.step (t : Session) (w : World) (c : Call) (a : Action) : Option (World × Call) :=
  match c.pc, a with
  | .start, .load => some (w, load t w c)
  | .loaded payment, .updateStatus => updateStatus t w c payment
  | .updated payment, .commit eventId now => commit t w c payment eventId now
  | .start, .decide eventId now =>
    match (load t w c).pc with
    | .loaded payment =>
      (updateStatus t w c payment).bind fun r => commit t r.1 c payment eventId now
    | _ => some (w, load t w c)
  | .committed payment, .recordReviewQueueSize =>
    some (w, { c with pc := .returned (buildReviewResponse c payment) })
  | .returned _, _ => none
  | .raised _, _ => none
  | .crashed, _ => none
  | _, .crash => some (w.rollback t, { c with pc := .crashed })
  | _, _ => none

/-- The call has committed its decision. -/
def Call.Decided (c : Call) : Prop :=
  (∃ payment, c.pc = .committed payment) ∨ ∃ response, c.pc = .returned response

end Review

end PaymentsLab
