import PaymentsLab.Foundation.RowStore
import PaymentsLab.Contracts.Persistence

/-!
# The state the services share

The database of both services, the Redis keys of the idempotency gate, and two logs of what left
the system: the calls of the payment provider and the messages on the event bus. The repositories
of both services are the statements on it; every statement runs in the transaction of a session.

`payments` and `outbox_events` are tables under READ COMMITTED with row locks. Rows of
`idempotency_records` are only ever inserted, at the commit of a creation.
-/

namespace PaymentsLab

open Foundation

/-- The owners of a database session: the outbox workers, the runs of the review use cases, the
runs of `CreatePaymentUseCase`; and the environment, which has none. -/
inductive Session
  | worker (n : Nat)
  | review (n : Nat)
  | create (n : Nat)
  | environment
  deriving DecidableEq

/-- Database, gate keys and outside effects. -/
structure World where
  payments : RowStore Session UUID Payment
  outbox : RowStore Session UUID OutboxEvent
  idempotency : List IdempotencyRecord
  gate : String → Bool
  confirms : List UUID
  published : List UUID

namespace World

/-- Empty tables, no gate key, nothing sent. -/
def empty : World where
  payments := .empty
  outbox := .empty
  idempotency := []
  gate _ := false
  confirms := []
  published := []

/-- `session.commit()`. -/
def commit (w : World) (t : Session) : World :=
  { w with payments := w.payments.commit t, outbox := w.outbox.commit t }

/-- `session.rollback()`, also by closing the session. -/
def rollback (w : World) (t : Session) : World :=
  { w with payments := w.payments.rollback t, outbox := w.outbox.rollback t }

/-- The committed status of a payment. -/
def status (w : World) (p : UUID) : Option PaymentStatus :=
  (w.payments.committed p).map (·.status)

end World

/-! ## Repositories

An `UPDATE` is undefined while another session holds the row; `true` says that it matched. -/

namespace PaymentRepository

/-- Runs a statement on the `payments` table. -/
def run (w : World) (statement : Option (RowStore Session UUID Payment × Bool)) :
    Option (World × Bool) :=
  statement.map fun r => ({ w with payments := r.1 }, r.2)

/-- `mark_processing`: guarded by the version the caller has loaded. -/
def markProcessing (w : World) (t : Session) (payment : Payment) : Option (World × Bool) :=
  run w <| w.payments.update t payment.paymentId (fun row => row.version = payment.version)
    fun row => { row with status := .processing, version := payment.version + 1 }

/-- `mark_confirmed`: guarded by the payment id only. -/
def markConfirmed (w : World) (t : Session) (payment : Payment) : Option (World × Bool) :=
  run w <| w.payments.update t payment.paymentId (fun _ => true)
    fun row => { row with
      status := .confirmed, version := payment.version + 2, lastError := none }

/-- `mark_failed`. -/
def markFailed (w : World) (t : Session) (payment : Payment) (reason : String) :
    Option (World × Bool) :=
  run w <| w.payments.update t payment.paymentId (fun _ => true)
    fun row => { row with
      status := .failed, version := payment.version + 2, lastError := some reason }

/-- `update_status`: guarded by the payment id only, and silent about the version. -/
def updateStatus (w : World) (t : Session) (paymentId : UUID) (status : PaymentStatus)
    (lastError : Option String) : Option (World × Bool) :=
  run w <| w.payments.update t paymentId (fun _ => true)
    fun row => { row with status := status, lastError := lastError }

/-- `get_by_id` of the processor and `get_by_payment_id` of the API. -/
def getById (w : World) (t : Session) (paymentId : UUID) : Option Payment :=
  w.payments.view t paymentId

/-- `get_by_merchant_and_idempotency`. -/
def getByMerchantAndIdempotency (w : World) (merchantId idempotencyKey : String) :
    Option Payment :=
  w.payments.rows.find? fun row =>
    row.merchantId = merchantId ∧ row.idempotencyKey = idempotencyKey

end PaymentRepository

/-- What a worker does to the outbox row it has handled. -/
inductive EventMark
  | sent
  | failed (attempts : Int)
  | reschedule (attempts : Int)
  deriving DecidableEq

namespace OutboxRepository

/-- Runs a statement on the `outbox_events` table. -/
def run (w : World) (statement : Option (RowStore Session UUID OutboxEvent × Bool)) :
    Option World :=
  statement.map fun r => { w with outbox := r.1 }

/-- The columns a mark sets; `reschedule` leaves the status alone. -/
def setMark (nextAttemptAt : Instant) : EventMark → OutboxEvent → OutboxEvent
  | .sent, row => { row with status := .sent }
  | .failed attempts, row => { row with status := .failed, attempts := attempts }
  | .reschedule attempts, row => { row with attempts := attempts, nextAttemptAt := nextAttemptAt }

/-- `mark_sent`, `mark_failed` and `reschedule`: all of them guarded by the event id only. -/
def mark (w : World) (t : Session) (eventId : UUID) (m : EventMark) (nextAttemptAt : Instant) :
    Option World :=
  run w <| w.outbox.update t eventId (fun _ => true) (setMark nextAttemptAt m)

/-- `emit_event` of the processor and `add_event` of the API. -/
def addEvent (w : World) (t : Session) (event : OutboxEvent) : Option World :=
  (w.outbox.insert t event.eventId event).map fun outbox => { w with outbox := outbox }

/-- The filter of `fetch_pending_requested`. -/
def dueRequested (now : Instant) (row : OutboxEvent) : Bool :=
  row.eventType = .paymentRequested ∧ row.status = .pending ∧ row.nextAttemptAt ≤ now

/-- The filter of `fetch_pending_fanout_events`. -/
def dueFanout (now : Instant) (row : OutboxEvent) : Bool :=
  row.eventType ∈ [.paymentConfirmed, .paymentFailed, .paymentReviewRequired] ∧
    row.status = .pending ∧ row.nextAttemptAt ≤ now

/-- `ordered` lists the rows that pass the filter by `created_at`; rows of equal age may come in
any order. -/
def Ordered (w : World) (due : OutboxEvent → Bool) (ordered : List OutboxEvent) : Prop :=
  ordered.Perm (w.outbox.rows.filter due) ∧ ordered.Pairwise fun a b => a.createdAt ≤ b.createdAt

instance (w : World) (due : OutboxEvent → Bool) (ordered : List OutboxEvent) :
    Decidable (Ordered w due ordered) :=
  inferInstanceAs (Decidable (_ ∧ _))

end OutboxRepository

namespace IdempotencyRepository

/-- `get_snapshot`. -/
def getSnapshot (w : World) (merchantId idempotencyKey : String) : Option IdempotencyRecord :=
  w.idempotency.find? fun row =>
    row.merchantId = merchantId ∧ row.idempotencyKey = idempotencyKey

end IdempotencyRepository

end PaymentsLab
