import PaymentsLab.Processor.CallProvider
import PaymentsLab.System.World

/-!
# The outbox worker

`OutboxWorker.run_once` of `payments_processor/workers/outbox_worker.py` with the commands it
uses, cut at every statement that reads or writes something shared: one step is one statement, one
provider call, one publication or one commit. `Worker.pc` is the place in the program together
with the local variables that are live there.

A database error aborts the transaction, so the statements of the exception handlers fail as well
and the exception leaves `run_once`; that, the `OverflowError` of a backoff in such a handler, and
the death of the process, is the step `crash`.
-/

namespace PaymentsLab

open Foundation

namespace Processor

/-- The settings of the worker, and whether SQLAlchemy writes the values of an `UPDATE` into the
loaded instance (`synchronize_session`). -/
structure Settings where
  batchSize : Nat
  maxEventAttempts : Int
  eventPublisherEnabled : Bool
  synchronizeSession : Bool
  deriving DecidableEq

/-- The loaded payment after its `mark_processing`. -/
def Settings.afterMarkProcessing (cfg : Settings) (payment : Payment) : Payment :=
  if cfg.synchronizeSession then
    { payment with status := .processing, version := payment.version + 1 }
  else payment

/-- A call of `FinalizePaymentCommand`. -/
inductive Finalization
  | confirm (provider providerReference : String)
  | fail (provider category reason : String)
  deriving DecidableEq

/-- The terminal status a finalization writes. -/
def Finalization.status : Finalization → PaymentStatus
  | .confirm .. => .confirmed
  | .fail .. => .failed

/-- The type of the event a finalization emits. -/
def Finalization.eventType : Finalization → EventType
  | .confirm .. => .paymentConfirmed
  | .fail .. => .paymentFailed

/-- The payload of the event a finalization emits. -/
def Finalization.payload (payment : Payment) : Finalization → EventPayload
  | .confirm provider providerReference =>
    .paymentConfirmed payment.paymentId payment.merchantId provider providerReference
  | .fail provider category reason =>
    .paymentFailed payment.paymentId payment.merchantId provider category reason

/-- What `_process_payment_event` does with the outcome of the provider call. -/
structure Settlement where
  finalization : Option Finalization
  mark : EventMark
  deriving DecidableEq

/-- `_handle_processor_error`. -/
def handleProcessorError (cfg : Settings) (event : OutboxEvent) (payment : Payment)
    (error : ProcessorError) : Settlement :=
  let attempts := event.attempts + 1
  if cfg.maxEventAttempts ≤ attempts then
    ⟨some (.fail (providerNameForMethod payment.method) error.category.value error.message),
      .failed attempts⟩
  else ⟨none, .reschedule attempts⟩

/-- The branches of `_process_payment_event`. -/
def settlement (cfg : Settings) (event : OutboxEvent) (payment : Payment) :
    Except CallError ProviderResponse → Settlement
  | .ok response =>
    if response.confirmed ∧ !response.partialFailure then
      ⟨some (.confirm response.provider response.providerReference), .sent⟩
    else
      ⟨some (.fail response.provider PaymentFailureReason.providerPartialFailure.value
        "Partial failure"), .sent⟩
  | .error error =>
    match error.asProcessorError with
    | some processorError => handleProcessorError cfg event payment processorError
    | none =>
      ⟨some (.fail ProviderName.unknown.value PaymentFailureReason.unexpected.value
        "Unexpected processor failure"), .failed (event.attempts + 1)⟩

/-- The transient errors that are a `ProcessorError` are retried while there are attempts left. -/
theorem settlement_transient {cfg : Settings} {event : OutboxEvent} {payment : Payment}
    {error : CallError} (htransient : CallProviderCommand.isTransient error = true)
    (hattempts : event.attempts + 1 < cfg.maxEventAttempts) (hopen : error ≠ .circuitBreakerOpen) :
    settlement cfg event payment (.error error) = ⟨none, .reschedule (event.attempts + 1)⟩ := by
  have hmore : ¬ cfg.maxEventAttempts ≤ event.attempts + 1 := by omega
  cases error with
  | providerTimeout | provider5xx =>
    simp [settlement, CallError.asProcessorError, handleProcessorError, hmore]
  | circuitBreakerOpen => exact absurd rfl hopen
  | other => cases htransient

/-- The mark `_publish_fanout_event` and `_handle_fanout_failure` put on a fan-out event. -/
def fanoutMark (cfg : Settings) (event : OutboxEvent) (published : Bool) : EventMark :=
  if published then .sent
  else
    let attempts := event.attempts + 1
    if cfg.maxEventAttempts ≤ attempts then .failed attempts else .reschedule attempts

/-- The `UPDATE` of `FinalizePaymentCommand.confirm` and `.fail`. -/
def Finalization.updatePayment (w : World) (t : Session) (payment : Payment) :
    Finalization → Option (World × Bool)
  | .confirm .. => PaymentRepository.markConfirmed w t payment
  | .fail _ _ reason => PaymentRepository.markFailed w t payment reason

/-- `FinalizePaymentCommand.confirm` and `.fail`: the payment row, then the event. -/
def Finalization.run (w : World) (t : Session) (payment : Payment) (eventId : UUID)
    (now : Instant) (f : Finalization) : Option World :=
  (f.updatePayment w t payment).bind fun r =>
    OutboxRepository.addEvent r.1 t
      (.new eventId payment.paymentId f.eventType (f.payload payment) now)

/-- `next_attempt_at` of a reschedule: base 0.5 s, cap 5 s. -/
def EventMark.nextAttemptAt (now : Instant) (draw : Int) : EventMark → Instant
  | .reschedule attempts => now + exponentialBackoff attempts 500000 5000000 draw
  | _ => now

/-- The backoff of the mark raises an `OverflowError`. -/
def EventMark.Overflows : EventMark → Prop
  | .reschedule attempts => BackoffOverflows attempts.toNat
  | _ => False

instance : (m : EventMark) → Decidable (EventMark.Overflows m)
  | .reschedule attempts => inferInstanceAs (Decidable (BackoffOverflows attempts.toNat))
  | .sent => inferInstanceAs (Decidable False)
  | .failed _ => inferInstanceAs (Decidable False)

/-- The backoff of the mark has a value, and `draw` is one its jitter can give. -/
def EventMark.DrawOk (draw : Int) : EventMark → Prop
  | .reschedule attempts =>
    ¬ BackoffOverflows attempts.toNat ∧ IsBackoffDraw attempts 500000 5000000 draw
  | _ => True

instance (draw : Int) : (m : EventMark) → Decidable (EventMark.DrawOk draw m)
  | .reschedule attempts =>
    inferInstanceAs (Decidable (¬ BackoffOverflows attempts.toNat ∧
      IsBackoffDraw attempts 500000 5000000 draw))
  | .sent => inferInstanceAs (Decidable True)
  | .failed _ => inferInstanceAs (Decidable True)

/-- The mark on an outbox row, with the clock and the jitter it reads. -/
def markEvent (w : World) (t : Session) (event : OutboxEvent) (m : EventMark) (now : Instant)
    (draw : Int) : Option World :=
  if EventMark.DrawOk draw m then
    OutboxRepository.mark w t event.eventId m (EventMark.nextAttemptAt now draw m)
  else none

/-- What a worker is about to commit. -/
inductive Branch
  | missing
  | lost
  | settled (payment : Payment) (outcome : Except CallError ProviderResponse)

/-- The place of a worker in `run_once`. -/
inductive WorkerPc
  /-- between two calls of `run_once` -/
  | idle
  /-- at the head of the loop over the requested events -/
  | requested
  /-- `get_by_id` gave nothing: `_mark_missing_payment` is next -/
  | missing (event : OutboxEvent)
  /-- `get_by_id` gave a payment: `mark_processing` is next -/
  | loaded (event : OutboxEvent) (payment : Payment)
  /-- `mark_processing` matched no row: `mark_sent` is next -/
  | lost (event : OutboxEvent)
  /-- `mark_processing` matched: the provider call is next -/
  | processing (event : OutboxEvent) (payment : Payment)
  /-- the provider call is over -/
  | answered (event : OutboxEvent) (payment : Payment)
      (outcome : Except CallError ProviderResponse)
  /-- the finalization, if any, is done: the mark on the event is next -/
  | finalized (event : OutboxEvent) (payment : Payment)
      (outcome : Except CallError ProviderResponse)
  /-- the commit is next -/
  | committing (event : OutboxEvent) (branch : Branch)
  /-- at the head of the loop over the fan-out events -/
  | fanout
  /-- `publish` has returned or raised: the mark on the event is next -/
  | published (event : OutboxEvent) (success : Bool)
  /-- the commit of a fan-out event is next -/
  | committingFanout (event : OutboxEvent) (success : Bool)

/-- A worker: its breakers, the rest of the batch it has fetched, and its place in the program. -/
structure Worker where
  breakers : String → CircuitBreaker
  events : List OutboxEvent
  pc : WorkerPc

inductive WorkerAction
  | fetchPendingRequested (now : Instant) (ordered : List OutboxEvent)
  | getById
  | markMissing (now : Instant)
  | markProcessing
  | markLost (now : Instant)
  | callProvider (started ended : Instant) (http : Nat → HttpOutcome)
  | finalize (eventId : UUID) (now : Instant)
  | markEvent (now : Instant) (draw : Int)
  | commit
  | fetchPendingFanout (now : Instant) (ordered : List OutboxEvent)
  | publish (success : Bool)
  | markFanout (now : Instant) (draw : Int)
  | endRun
  | crash

/-- One step of the worker that owns session `t`. -/
def Worker.step (cfg : Settings) (t : Session) (w : World) (l : Worker) (a : WorkerAction) :
    Option (World × Worker) :=
  match l.pc, a with
  | .idle, .fetchPendingRequested now ordered =>
    if OutboxRepository.Ordered w (OutboxRepository.dueRequested now) ordered then
      some (w, { l with events := ordered.take cfg.batchSize, pc := .requested })
    else none
  | .requested, .getById =>
    match l.events with
    | event :: rest =>
      match PaymentRepository.getById w t event.aggregateId with
      | some payment => some (w, { l with events := rest, pc := .loaded event payment })
      | none => some (w, { l with events := rest, pc := .missing event })
    | [] => none
  | .missing event, .markMissing now =>
    (markEvent w t event (.failed (event.attempts + 1)) now 0).map fun w' =>
      (w', { l with pc := .committing event .missing })
  | .loaded event payment, .markProcessing =>
    (PaymentRepository.markProcessing w t payment).map fun r =>
      if r.2 then (r.1, { l with pc := .processing event (cfg.afterMarkProcessing payment) })
      else (r.1, { l with pc := .lost event })
  | .lost event, .markLost now =>
    (markEvent w t event .sent now 0).map fun w' =>
      (w', { l with pc := .committing event .lost })
  | .processing event payment, .callProvider started ended http =>
    let run := CallProviderCommand.execute l.breakers payment.method started ended http
    some ({ w with confirms := w.confirms ++ List.replicate run.confirms payment.paymentId },
      { l with breakers := run.breakers, pc := .answered event payment run.outcome })
  | .answered event payment outcome, .finalize eventId now =>
    match (settlement cfg event payment outcome).finalization with
    | some f =>
      (f.run w t payment eventId now).map fun w' =>
        (w', { l with pc := .finalized event payment outcome })
    | none => some (w, { l with pc := .finalized event payment outcome })
  | .finalized event payment outcome, .markEvent now draw =>
    (markEvent w t event (settlement cfg event payment outcome).mark now draw).map fun w' =>
      (w', { l with pc := .committing event (.settled payment outcome) })
  | .committing _ _, .commit => some (w.commit t, { l with pc := .requested })
  | .requested, .fetchPendingFanout now ordered =>
    if l.events = [] ∧ cfg.eventPublisherEnabled ∧
        OutboxRepository.Ordered w (OutboxRepository.dueFanout now) ordered then
      some (w, { l with events := ordered.take cfg.batchSize, pc := .fanout })
    else none
  | .fanout, .publish success =>
    match l.events with
    | event :: rest =>
      some ({ w with published := if success then w.published ++ [event.eventId] else w.published },
        { l with events := rest, pc := .published event success })
    | [] => none
  | .published event success, .markFanout now draw =>
    (markEvent w t event (fanoutMark cfg event success) now draw).map fun w' =>
      (w', { l with pc := .committingFanout event success })
  | .committingFanout _ _, .commit => some (w.commit t, { l with pc := .fanout })
  | .requested, .endRun =>
    if l.events = [] ∧ !cfg.eventPublisherEnabled then some (w, { l with pc := .idle }) else none
  | .fanout, .endRun => if l.events = [] then some (w, { l with pc := .idle }) else none
  | _, .crash => some (w.rollback t, { l with events := [], pc := .idle })
  | _, _ => none

end Processor

end PaymentsLab
