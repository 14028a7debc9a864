import PaymentsLab.Processor.OutboxWorker
import PaymentsLab.System.Statements

/-!
# What a step of the worker can do

`Next` lists the steps of a worker with the table changes written out, and `Worker.next_of_step`
derives it from the step function once; the results on the system split on `Next` and never unfold
the step function again.
-/

namespace PaymentsLab

open Foundation

namespace Processor

/-- The columns a finalization sets, from the payment in memory. -/
def Finalization.set (payment : Payment) : Finalization → Payment → Payment
  | .confirm .., row =>
    { row with status := .confirmed, version := payment.version + 2, lastError := none }
  | .fail _ _ reason, row =>
    { row with status := .failed, version := payment.version + 2, lastError := some reason }

@[simp] theorem Finalization.status_set (payment row : Payment) (f : Finalization) :
    (f.set payment row).status = f.status := by
  cases f <;> rfl

@[simp] theorem Finalization.identity_set (payment row : Payment) (f : Finalization) :
    (f.set payment row).identity = row.identity := by
  cases f <;> rfl

@[simp] theorem Finalization.paymentId_set (payment row : Payment) (f : Finalization) :
    (f.set payment row).paymentId = row.paymentId := by
  cases f <;> rfl

@[simp] theorem Settings.paymentId_afterMarkProcessing (cfg : Settings) (payment : Payment) :
    (cfg.afterMarkProcessing payment).paymentId = payment.paymentId := by
  unfold Settings.afterMarkProcessing
  split <;> rfl

/-- A finalization by the session that holds the payment row. -/
theorem Finalization.run_eq_some {w w' : World} {t : Session} {payment row₀ : Payment}
    {eventId : UUID} {now : Instant} {f : Finalization}
    (hown : w.payments.writes t payment.paymentId = some row₀)
    (h : f.run w t payment eventId now = some w') :
    w.payments.Free t payment.paymentId ∧ w.outbox.committed eventId = none ∧
      (∀ t', w.outbox.writes t' eventId = none) ∧ w.outbox.Free t eventId ∧
      w' = { w with
        payments := w.payments.put t payment.paymentId (f.set payment row₀)
        outbox := w.outbox.put t eventId
          (.new eventId payment.paymentId f.eventType (f.payload payment) now) } := by
  obtain ⟨hfree, hupdate⟩ := RowStore.update_own (p := fun _ => true) (f := f.set payment) hown rfl
  have hrun : f.updatePayment w t payment = some
      ({ w with payments := w.payments.put t payment.paymentId (f.set payment row₀) }, true) := by
    cases f <;> exact congrArg (PaymentRepository.run w) hupdate
  unfold Finalization.run at h
  rw [hrun] at h
  obtain ⟨hc, hw, hf, rfl⟩ := OutboxRepository.addEvent_eq_some h
  exact ⟨hfree, hc, hw, hf, rfl⟩

/-- A finalization touches the tables only. -/
theorem Finalization.run_tables {w w' : World} {t : Session} {payment : Payment}
    {eventId : UUID} {now : Instant} {f : Finalization}
    (h : f.run w t payment eventId now = some w') :
    ∃ payments outbox, w' = { w with payments := payments, outbox := outbox } := by
  unfold Finalization.run OutboxRepository.addEvent at h
  obtain ⟨⟨w₁, b⟩, hu, he⟩ := Option.bind_eq_some_iff.1 h
  obtain ⟨outbox, -, rfl⟩ := Option.map_eq_some_iff.1 he
  have hfirst : ∃ payments, w₁ = { w with payments := payments } := by
    cases f <;>
    · obtain ⟨r, -, heq⟩ := Option.map_eq_some_iff.1 hu
      cases heq
      exact ⟨_, rfl⟩
  obtain ⟨payments, rfl⟩ := hfirst
  exact ⟨payments, outbox, rfl⟩

/-- A mark touches the outbox only. -/
theorem markEvent_tables {w w' : World} {t : Session} {event : OutboxEvent} {m : EventMark}
    {now : Instant} {draw : Int} (h : markEvent w t event m now draw = some w') :
    ∃ outbox, w' = { w with outbox := outbox } := by
  unfold markEvent OutboxRepository.mark OutboxRepository.run at h
  split at h
  · obtain ⟨r, -, rfl⟩ := Option.map_eq_some_iff.1 h
    exact ⟨_, rfl⟩
  · cases h

/-! ## Steps of the worker -/

/-- The mark a branch puts on the event in hand. -/
def Branch.mark (cfg : Settings) (event : OutboxEvent) : Branch → EventMark
  | .missing => .failed (event.attempts + 1)
  | .lost => .sent
  | .settled payment outcome => (settlement cfg event payment outcome).mark

/-- The finalization of a branch. -/
def Branch.finalization (cfg : Settings) (event : OutboxEvent) : Branch → Option Finalization
  | .missing => none
  | .lost => none
  | .settled payment outcome => (settlement cfg event payment outcome).finalization

/-- The steps of a worker. -/
inductive Next (cfg : Settings) (t : Session) (w : World) (l : Worker) :
    WorkerAction → World → Worker → Prop
  | fetched {now : Instant} {ordered : List OutboxEvent} (pc : l.pc = .idle)
    (rows : OutboxRepository.Ordered w (OutboxRepository.dueRequested now) ordered) :
    Next cfg t w l (.fetchPendingRequested now ordered) w
      { l with events := ordered.take cfg.batchSize, pc := .requested }
  | found {event : OutboxEvent} {rest : List OutboxEvent} {payment : Payment}
    (pc : l.pc = .requested) (events : l.events = event :: rest)
    (row : w.payments.view t event.aggregateId = some payment) :
    Next cfg t w l .getById w { l with events := rest, pc := .loaded event payment }
  | notFound {event : OutboxEvent} {rest : List OutboxEvent} (pc : l.pc = .requested)
    (events : l.events = event :: rest) (row : w.payments.view t event.aggregateId = none) :
    Next cfg t w l .getById w { l with events := rest, pc := .missing event }
  | markedMissing {now : Instant} {event : OutboxEvent} {w' : World} (pc : l.pc = .missing event)
    (mark : markEvent w t event (.failed (event.attempts + 1)) now 0 = some w') :
    Next cfg t w l (.markMissing now) w' { l with pc := .committing event .missing }
  | locked {event : OutboxEvent} {payment row : Payment} (pc : l.pc = .loaded event payment)
    (free : w.payments.Free t payment.paymentId)
    (view : w.payments.view t payment.paymentId = some row)
    (version : row.version = payment.version) :
    Next cfg t w l .markProcessing
      { w with
        payments := w.payments.put t payment.paymentId
          { row with status := .processing, version := payment.version + 1 } }
      { l with pc := .processing event (cfg.afterMarkProcessing payment) }
  | missed {event : OutboxEvent} {payment : Payment} (pc : l.pc = .loaded event payment)
    (stale : ∀ row, w.payments.view t payment.paymentId = some row →
      w.payments.committed payment.paymentId ≠ none →
      w.payments.Free t payment.paymentId ∧ row.version ≠ payment.version) :
    Next cfg t w l .markProcessing w { l with pc := .lost event }
  | markedLost {now : Instant} {event : OutboxEvent} {w' : World} (pc : l.pc = .lost event)
    (mark : markEvent w t event .sent now 0 = some w') :
    Next cfg t w l (.markLost now) w' { l with pc := .committing event .lost }
  | called {event : OutboxEvent} {payment : Payment} {started ended : Instant}
    {http : Nat → HttpOutcome} {run : CallProviderCommand.Run}
    (pc : l.pc = .processing event payment)
    (call : run = CallProviderCommand.execute l.breakers payment.method started ended http) :
    Next cfg t w l (.callProvider started ended http)
      { w with confirms := w.confirms ++ List.replicate run.confirms payment.paymentId }
      { l with breakers := run.breakers, pc := .answered event payment run.outcome }
  | finalized {event : OutboxEvent} {payment : Payment}
    {outcome : Except CallError ProviderResponse} {eventId : UUID} {now : Instant} {w' : World}
    {f : Finalization} (pc : l.pc = .answered event payment outcome)
    (final : (settlement cfg event payment outcome).finalization = some f)
    (run : f.run w t payment eventId now = some w') :
    Next cfg t w l (.finalize eventId now) w' { l with pc := .finalized event payment outcome }
  | unfinalized {event : OutboxEvent} {payment : Payment}
    {outcome : Except CallError ProviderResponse} {eventId : UUID} {now : Instant}
    (pc : l.pc = .answered event payment outcome)
    (final : (settlement cfg event payment outcome).finalization = none) :
    Next cfg t w l (.finalize eventId now) w { l with pc := .finalized event payment outcome }
  | marked {event : OutboxEvent} {payment : Payment} {outcome : Except CallError ProviderResponse}
    {now : Instant} {draw : Int} {w' : World} (pc : l.pc = .finalized event payment outcome)
    (mark : markEvent w t event (settlement cfg event payment outcome).mark now draw = some w') :
    Next cfg t w l (.markEvent now draw) w'
      { l with pc := .committing event (.settled payment outcome) }
  | committed {event : OutboxEvent} {branch : Branch} (pc : l.pc = .committing event branch) :
    Next cfg t w l .commit (w.commit t) { l with pc := .requested }
  | fetchedFanout {now : Instant} {ordered : List OutboxEvent} (pc : l.pc = .requested)
    (rows : OutboxRepository.Ordered w (OutboxRepository.dueFanout now) ordered) :
    Next cfg t w l (.fetchPendingFanout now ordered) w
      { l with events := ordered.take cfg.batchSize, pc := .fanout }
  | published {event : OutboxEvent} {rest : List OutboxEvent} {success : Bool}
    (pc : l.pc = .fanout) (events : l.events = event :: rest) :
    Next cfg t w l (.publish success)
      { w with published := if success then w.published ++ [event.eventId] else w.published }
      { l with events := rest, pc := .published event success }
  | markedFanout {event : OutboxEvent} {success : Bool} {now : Instant} {draw : Int} {w' : World}
    (pc : l.pc = .published event success)
    (mark : Processor.markEvent w t event (fanoutMark cfg event success) now draw = some w') :
    Next cfg t w l (.markFanout now draw) w' { l with pc := .committingFanout event success }
  | committedFanout {event : OutboxEvent} {success : Bool}
    (pc : l.pc = .committingFanout event success) :
    Next cfg t w l .commit (w.commit t) { l with pc := .fanout }
  | ended (pc : l.pc = .requested ∨ l.pc = .fanout) (events : l.events = []) :
    Next cfg t w l .endRun w { l with pc := .idle }
  | crashed : Next cfg t w l .crash (w.rollback t) { l with events := [], pc := .idle }

theorem Worker.next_of_step {cfg : Settings} {t : Session} {w w' : World} {l l' : Worker}
    {a : WorkerAction} (h : l.step cfg t w a = some (w', l')) : Next cfg t w l a w' l' := by
  unfold Worker.step at h
  split at h
  case h_1 pc =>
    split at h <;> cases h
    exact .fetched pc ‹_›
  case h_2 pc =>
    split at h
    · split at h <;> cases h
      · exact .found pc ‹_› ‹_›
      · exact .notFound pc ‹_› ‹_›
    · cases h
  case h_3 pc =>
    obtain ⟨w₁, hw, he⟩ := Option.map_eq_some_iff.1 h
    cases he
    exact .markedMissing pc hw
  case h_4 pc =>
    obtain ⟨⟨w₁, b⟩, hw, he⟩ := Option.map_eq_some_iff.1 h
    rcases PaymentRepository.run_update hw with ⟨rfl, free, row, hv, hp, rfl⟩ | ⟨rfl, rfl, hn⟩
    · cases he
      exact .locked pc free hv (by simpa using hp)
    · cases he
      exact .missed pc fun row hv hc => by simpa using hn row hv hc
  case h_5 pc =>
    obtain ⟨w₁, hw, he⟩ := Option.map_eq_some_iff.1 h
    cases he
    exact .markedLost pc hw
  case h_6 pc =>
    cases h
    exact .called pc rfl
  case h_7 pc =>
    split at h
    · obtain ⟨w₁, hw, he⟩ := Option.map_eq_some_iff.1 h
      cases he
      exact .finalized pc ‹_› hw
    · cases h
      exact .unfinalized pc ‹_›
  case h_8 pc =>
    obtain ⟨w₁, hw, he⟩ := Option.map_eq_some_iff.1 h
    cases he
    exact .marked pc hw
  case h_9 pc =>
    cases h
    exact .committed pc
  case h_10 pc =>
    split at h
    · next hc =>
      cases h
      exact .fetchedFanout pc hc.2.2
    · cases h
  case h_11 pc =>
    split at h <;> cases h
    exact .published pc ‹_›
  case h_12 pc =>
    obtain ⟨w₁, hw, he⟩ := Option.map_eq_some_iff.1 h
    cases he
    exact .markedFanout pc hw
  case h_13 pc =>
    cases h
    exact .committedFanout pc
  case h_14 pc =>
    split at h
    · next hc =>
      cases h
      exact .ended (.inl pc) hc.1
    · cases h
  case h_15 pc =>
    split at h <;> cases h
    exact .ended (.inr pc) ‹_›
  case h_16 =>
    cases h
    exact .crashed
  case h_17 => cases h

end Processor

end PaymentsLab
