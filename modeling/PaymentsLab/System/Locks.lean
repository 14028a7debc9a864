import Mathlib.Data.List.Sort
import Mathlib.Logic.Relation
import PaymentsLab.System.Retries

/-!
# Nobody waits forever

An `UPDATE` waits while another session holds its row. A session takes its payment row before its
event row, and commits next once it holds the event row it was after: so whoever waits, waits for a
session that can go on, or for one that waits for such a session. There is no deadlock in any
interleaving of workers, reviews and creations (`no_deadlock`).
-/

namespace PaymentsLab

open Foundation

/-- A row of one of the tables with row locks. -/
inductive LockedRow
  | payment (paymentId : UUID)
  | event (eventId : UUID)
  deriving DecidableEq

/-- The session has an uncommitted version of the row. -/
def World.Holds (w : World) (t : Session) : LockedRow → Prop
  | .payment p => w.payments.writes t p ≠ none
  | .event k => w.outbox.writes t k ≠ none

namespace World

variable {w : World} {t : Session}

theorem Clean.not_holds (h : w.Clean t) (row : LockedRow) : ¬ w.Holds t row := by
  cases row with
  | payment p => exact fun hp => hp (by rw [h.payments])
  | event k => exact fun hk => hk (by rw [h.outbox])

/-- A payment row that no other session holds is free. -/
theorem free_payment {p : UUID} (h : ∀ t', t ≠ t' → ¬ w.Holds t' (.payment p)) :
    w.payments.Free t p :=
  RowStore.free_of_writes fun t' ht => not_not.1 (h t' ht.symm)

theorem free_event {k : UUID} (h : ∀ t', t ≠ t' → ¬ w.Holds t' (.event k)) :
    w.outbox.Free t k :=
  RowStore.free_of_writes fun t' ht => not_not.1 (h t' ht.symm)

end World

/-! ## What a session waits for -/

namespace Processor

/-- The row the next statement of a worker updates, unless the worker holds it already. -/
def WorkerPc.awaits : WorkerPc → Option LockedRow
  | .loaded _ payment => some (.payment payment.paymentId)
  | .missing event => some (.event event.eventId)
  | .lost event => some (.event event.eventId)
  | .finalized event _ _ => some (.event event.eventId)
  | .published event _ => some (.event event.eventId)
  | _ => none

namespace Worker.Inv

variable {cfg : Settings} {w : World} {t : Session} {l : Worker}

/-- A worker with a payment row waits for the row of an event at most. -/
theorem awaits_of_holds_payment (h : Worker.Inv cfg w t l) {p : UUID} (hp : w.Holds t (.payment p))
    {row : LockedRow} (hrow : l.pc.awaits = some row) : ∃ k, row = .event k := by
  cases hheld : l.pc.heldStatus cfg with
  | none => exact absurd (by rw [h.free hheld]) hp
  | some status =>
    cases hpc : l.pc <;> rw [hpc] at hheld hrow <;> cases hrow
    · exact ⟨_, rfl⟩
    · cases hheld
    · exact ⟨_, rfl⟩
    · exact ⟨_, rfl⟩
    · exact ⟨_, rfl⟩

/-- A worker with the row of a committed event is about to commit. -/
theorem awaits_of_holds_event (h : Worker.Inv cfg w t l) {k : UUID} (hk : w.Holds t (.event k))
    (hcommitted : w.outbox.committed k ≠ none) : l.pc.awaits = none := by
  obtain ⟨added, -, hnew, hev⟩ := h.events
  cases hmarked : l.pc.marked cfg with
  | some m => cases hpc : l.pc <;> rw [hpc] at hmarked <;> first | rfl | cases hmarked
  | none =>
    -- all it holds is the event it has added
    rw [hmarked] at hev
    have hwrites : w.outbox.writes t = singleEvent added := hev
    have hheld : singleEvent added k ≠ none := hwrites ▸ show w.outbox.writes t k ≠ none from hk
    obtain ⟨e, he⟩ := Option.ne_none_iff_exists'.1 hheld
    obtain ⟨hadded, rfl⟩ := singleEvent_eq_some he
    exact absurd (hnew e hadded) hcommitted

/-- The event a worker waits for is committed. -/
theorem committed_of_awaits (h : Worker.Inv cfg w t l) {k : UUID}
    (hrow : l.pc.awaits = some (.event k)) : w.outbox.committed k ≠ none := by
  obtain ⟨event, hevent, rfl⟩ : ∃ event, l.pc.event = some event ∧ event.eventId = k := by
    cases hpc : l.pc <;> rw [hpc] at hrow <;> cases hrow <;> exact ⟨_, rfl, rfl⟩
  obtain ⟨row, hrow, -⟩ := h.known event (.inr hevent)
  rw [hrow]
  exact Option.some_ne_none row

end Worker.Inv

end Processor

/-- The row the next statement of a session waits for. -/
def Session.awaits : (t : Session) → t.Local → Option LockedRow
  | .worker _, l => Processor.WorkerPc.awaits (Processor.Worker.pc l)
  | .review _, c =>
    match Review.Call.pc c with
    | .loaded _ => some (.payment (Review.Call.paymentId c))
    | _ => none
  | _, _ => none

/-- The session has come to its end. -/
def Session.Finished : (t : Session) → t.Local → Prop
  | .review _, c => match Review.Call.pc c with
    | .returned _ | .raised _ | .crashed => True
    | _ => False
  | .create _, r => match Create.Run.pc r with
    | .returned _ | .raised _ | .crashed => True
    | _ => False
  | _, _ => False

/-- The action ends the session, or the round of a worker, before its time. -/
def Session.isCrash : (t : Session) → t.Act → Bool
  | .worker _, a => Processor.WorkerAction.isCrash a
  | .review _, a => match a with
    | Review.Action.crash => true
    | _ => false
  | .create _, a => match a with
    | Create.Action.crash => true
    | _ => false
  | .environment, _ => false

namespace Payments

variable {cfg : Processor.Settings} {good : (payments cfg).Guard} {s₀ s s' : State cfg}
  {t t' : Session}

/-- Session `t` waits for a row that `t'` holds. -/
def WaitsFor (s : State cfg) (t t' : Session) : Prop :=
  t ≠ t' ∧ ∃ row, t.awaits (s.proc t) = some row ∧ s.world.Holds t' row

/-- The session has a step to take. -/
def CanStep (s : State cfg) (t : Session) : Prop :=
  ∃ (a : t.Act) (s' : State cfg), t.isCrash a = false ∧ s.step t a = some s'

theorem canStep_of_step {a : t.Act} (ha : t.isCrash a = false)
    (h : ((payments cfg).step t s.world (s.proc t) a).isSome) : CanStep s t := by
  obtain ⟨r, hr⟩ := Option.isSome_iff_exists.1 h
  exact ⟨a, _, ha, System.State.step_eq_some.2 ⟨r.1, r.2, hr, rfl⟩⟩

/-- Integrity, and an environment that holds nothing. -/
structure Locked (s : State cfg) : Prop where
  integrity : Integrity s
  environment : s.world.Clean .environment

namespace Locked

theorem initial (h : Initial s) : Locked s where
  integrity := .initial h
  environment := by
    rw [h.world]
    exact ⟨rfl, rfl⟩

theorem next (h : Locked s) {i : Session} {a : i.Act} (hstep : s.step i a = some s') :
    Locked s' := by
  obtain ⟨hs, hi'⟩ := h.integrity.next hstep
  refine ⟨hi', ?_⟩
  by_cases hi : Session.environment = i
  · subst hi
    have hown := System.State.step_self hstep
    rw [← (Prod.mk.inj (Option.some.inj hown)).1]
    exact ⟨h.environment.payments, h.environment.outbox⟩
  · exact h.environment.stable (hs.rely h.integrity.wf hi)

theorem of_reaches (h : Locked s) (hrun : (payments cfg).Reaches good s s') : Locked s' :=
  hrun.invariant (fun hi _ hstep => hi.next hstep) h

variable {row : LockedRow}

/-- Whoever holds a payment row waits for an event at most. -/
theorem awaits_of_holds_payment (h : Locked s) {p : UUID} (hp : s.world.Holds t (.payment p))
    (hrow : t.awaits (s.proc t) = some row) : ∃ k, row = .event k := by
  cases t with
  | worker n =>
    have hinv : Processor.Worker.Inv cfg s.world (.worker n) (worker s n) :=
      h.integrity.inv (.worker n)
    exact hinv.awaits_of_holds_payment hp hrow
  | review n =>
    have hinv : Review.Call.Inv s.world (.review n) (review s n) := h.integrity.inv (.review n)
    have hrow : Session.awaits (.review n) (review s n) = some row := hrow
    have hclean : s.world.Clean (.review n) := by
      refine hinv.clean fun payment hpc => ?_
      simp only [Session.awaits, hpc] at hrow
      cases hrow
    exact absurd hp (hclean.not_holds _)
  | create n => cases hrow
  | environment => cases hrow

/-- Whoever holds the row of a committed event waits for nothing. -/
theorem awaits_of_holds_event (h : Locked s) {k : UUID} (hk : s.world.Holds t (.event k))
    (hcommitted : s.world.outbox.committed k ≠ none) : t.awaits (s.proc t) = none := by
  cases t with
  | worker n =>
    have hinv : Processor.Worker.Inv cfg s.world (.worker n) (worker s n) :=
      h.integrity.inv (.worker n)
    exact hinv.awaits_of_holds_event hk hcommitted
  | review n =>
    have hinv : Review.Call.Inv s.world (.review n) (review s n) := h.integrity.inv (.review n)
    by_cases hupdated : ∀ payment, (review s n).pc ≠ .updated payment
    · exact absurd hk ((hinv.clean hupdated).not_holds _)
    · push Not at hupdated
      obtain ⟨payment, hpc⟩ := hupdated
      exact absurd (by rw [(hinv.held payment hpc).2]) hk
  | create n => rfl
  | environment => rfl

/-- A session waits for committed events only. -/
theorem committed_of_awaits (h : Locked s) {k : UUID}
    (hrow : t.awaits (s.proc t) = some (.event k)) : s.world.outbox.committed k ≠ none := by
  cases t with
  | worker n =>
    have hinv : Processor.Worker.Inv cfg s.world (.worker n) (worker s n) :=
      h.integrity.inv (.worker n)
    exact hinv.committed_of_awaits hrow
  | review n =>
    have hrow : Session.awaits (.review n) (review s n) = some (.event k) := hrow
    simp only [Session.awaits] at hrow
    split at hrow <;> cases hrow
  | create n => cases hrow
  | environment => cases hrow

/-- Nobody waits for a session that waits for one that waits. -/
theorem not_waitsFor (h : Locked s) {t'' t''' : Session} (h₁ : WaitsFor s t t')
    (h₂ : WaitsFor s t' t'') : ¬ WaitsFor s t'' t''' := by
  rintro ⟨-, row₃, hrow₃, -⟩
  obtain ⟨-, row₁, hrow₁, hheld₁⟩ := h₁
  obtain ⟨-, row₂, hrow₂, hheld₂⟩ := h₂
  have hevent {t : Session} {k : UUID} (hawaits : t.awaits (s.proc t) = some (.event k))
      {u : Session} {row : LockedRow} (hheld : s.world.Holds u (.event k))
      (hrow : u.awaits (s.proc u) = some row) : False := by
    cases (h.awaits_of_holds_event hheld (h.committed_of_awaits hawaits)).symm.trans hrow
  cases row₁ with
  | event k => exact hevent hrow₁ hheld₁ hrow₂
  | payment p =>
    obtain ⟨k, rfl⟩ := h.awaits_of_holds_payment hheld₁ hrow₂
    exact hevent hrow₂ hheld₂ hrow₃

end Locked

end Payments

/-! ## Who can go on -/

namespace OutboxRepository

/-- Every selection has an order. -/
theorem exists_ordered (w : World) (due : OutboxEvent → Bool) :
    ∃ ordered, Ordered w due ordered := by
  let older (a b : OutboxEvent) : Bool := a.createdAt ≤ b.createdAt
  refine ⟨(w.outbox.rows.filter due).mergeSort older, List.mergeSort_perm _ _, ?_⟩
  refine (List.pairwise_mergeSort ?_ ?_ _).imp fun h => of_decide_eq_true h
  · intro a b c hab hbc
    exact decide_eq_true (Int.le_trans (of_decide_eq_true hab) (of_decide_eq_true hbc))
  · intro a b
    rw [Bool.or_eq_true, decide_eq_true_eq, decide_eq_true_eq]
    exact Int.le_total _ _

/-- There is an id for a new event. -/
theorem exists_addEvent (w : World) (t : Session) :
    ∃ k, ∀ e : OutboxEvent, e.eventId = k → (addEvent w t e).isSome := by
  obtain ⟨k, hk⟩ := w.outbox.exists_insert t
  refine ⟨k, fun e he => ?_⟩
  subst he
  rw [addEvent, Option.isSome_map]
  exact hk e

end OutboxRepository

namespace Processor

variable {cfg : Settings} {w : World} {t : Session} {l : Worker}

/-- A mark on a free row, with a backoff that does not overflow. -/
theorem markEvent_isSome {event : OutboxEvent} {m : EventMark}
    (hfree : w.outbox.Free t event.eventId) (hfits : ¬ EventMark.Overflows m) (now : Instant) :
    (markEvent w t event m now 0).isSome := by
  have hdraw : EventMark.DrawOk 0 m := by
    cases m with
    | sent | failed => trivial
    | reschedule attempts =>
      refine ⟨hfits, ?_⟩
      have hpow : (0 : Int) < 2 ^ (attempts - 1).toNat := Int.pow_pos (by decide)
      unfold IsBackoffDraw backoffRaw
      rw [Int.natAbs_zero]
      omega
  rw [markEvent, if_pos hdraw, OutboxRepository.mark, OutboxRepository.run, Option.isSome_map]
  exact RowStore.update_isSome _ _ hfree

/-- A finalization by the session that holds the payment row. -/
theorem Finalization.exists_run {payment row : Payment} (f : Finalization) (now : Instant)
    (hown : w.payments.writes t payment.paymentId = some row) :
    ∃ eventId, (f.run w t payment eventId now).isSome := by
  obtain ⟨-, hupdate⟩ := RowStore.update_own (p := fun _ => true) (f := f.set payment) hown rfl
  have hrun : f.updatePayment w t payment = some
      ({ w with payments := w.payments.put t payment.paymentId (f.set payment row) }, true) := by
    cases f <;> exact congrArg (PaymentRepository.run w) hupdate
  obtain ⟨k, hk⟩ := OutboxRepository.exists_addEvent
    { w with payments := w.payments.put t payment.paymentId (f.set payment row) } t
  refine ⟨k, ?_⟩
  rw [Finalization.run, hrun]
  exact hk _ rfl

/-- A worker that waits for nothing has a step to take. -/
theorem Worker.Inv.exists_step (h : Worker.Inv cfg w t l)
    (hfits : cfg.maxEventAttempts ≤ floatMaxExp + 1)
    (hpayment : ∀ p, l.pc.awaits = some (.payment p) → w.payments.Free t p)
    (hevent : ∀ k, l.pc.awaits = some (.event k) → w.outbox.Free t k) :
    ∃ a, a.isCrash = false ∧ (l.step cfg t w a).isSome := by
  have hoverflow (pc : WorkerPc) : pc.overflowing cfg = none := pc.overflowing_eq_none hfits
  cases hpc : l.pc with
  | idle =>
    obtain ⟨ordered, hordered⟩ :=
      OutboxRepository.exists_ordered w (OutboxRepository.dueRequested 0)
    refine ⟨.fetchPendingRequested 0 ordered, rfl, ?_⟩
    simp [Worker.step, hpc, hordered]
  | requested =>
    cases hevents : l.events with
    | cons event rest =>
      refine ⟨.getById, rfl, ?_⟩
      simp only [Worker.step, hpc, hevents]
      split <;> rfl
    | nil =>
      cases henabled : cfg.eventPublisherEnabled with
      | false => exact ⟨.endRun, rfl, by simp [Worker.step, hpc, hevents, henabled]⟩
      | true =>
        obtain ⟨ordered, hordered⟩ :=
          OutboxRepository.exists_ordered w (OutboxRepository.dueFanout 0)
        refine ⟨.fetchPendingFanout 0 ordered, rfl, ?_⟩
        simp [Worker.step, hpc, hevents, henabled, hordered]
  | missing event =>
    have hfree := hevent event.eventId (by rw [hpc]; rfl)
    refine ⟨.markMissing 0, rfl, ?_⟩
    simp only [Worker.step, hpc, Option.isSome_map]
    exact markEvent_isSome hfree id 0
  | loaded event payment =>
    have hfree := hpayment payment.paymentId (by rw [hpc]; rfl)
    refine ⟨.markProcessing, rfl, ?_⟩
    simp only [Worker.step, hpc, Option.isSome_map, PaymentRepository.markProcessing,
      PaymentRepository.run]
    exact RowStore.update_isSome _ _ hfree
  | lost event =>
    have hfree := hevent event.eventId (by rw [hpc]; rfl)
    refine ⟨.markLost 0, rfl, ?_⟩
    simp only [Worker.step, hpc, Option.isSome_map]
    exact markEvent_isSome hfree id 0
  | processing event payment =>
    exact ⟨.callProvider 0 0 fun _ => .timeout, rfl, by simp [Worker.step, hpc]⟩
  | answered event payment outcome =>
    cases hfinal : (settlement cfg event payment outcome).finalization with
    | none => exact ⟨.finalize 0 0, rfl, by simp [Worker.step, hpc, hfinal]⟩
    | some f =>
      obtain ⟨row, hrow, -⟩ := h.held payment _ (by rw [hpc]; rfl) (by rw [hpc]; rfl)
      have hown : w.payments.writes t payment.paymentId = some row := by
        rw [hrow, Function.update_self]
      obtain ⟨eventId, hrun⟩ := f.exists_run 0 hown
      exact ⟨.finalize eventId 0, rfl, by simpa [Worker.step, hpc, hfinal] using hrun⟩
  | finalized event payment outcome =>
    have hfree := hevent event.eventId (by rw [hpc]; rfl)
    have hfit : ¬ EventMark.Overflows (settlement cfg event payment outcome).mark := by
      simpa [WorkerPc.overflowing] using hoverflow (.finalized event payment outcome)
    refine ⟨.markEvent 0 0, rfl, ?_⟩
    simp only [Worker.step, hpc, Option.isSome_map]
    exact markEvent_isSome hfree hfit 0
  | committing event branch => exact ⟨.commit, rfl, by simp [Worker.step, hpc]⟩
  | fanout =>
    cases hevents : l.events with
    | cons event rest => exact ⟨.publish true, rfl, by simp [Worker.step, hpc, hevents]⟩
    | nil => exact ⟨.endRun, rfl, by simp [Worker.step, hpc, hevents]⟩
  | published event success =>
    have hfree := hevent event.eventId (by rw [hpc]; rfl)
    have hfit : ¬ EventMark.Overflows (fanoutMark cfg event success) := by
      simpa [WorkerPc.overflowing] using hoverflow (.published event success)
    refine ⟨.markFanout 0 0, rfl, ?_⟩
    simp only [Worker.step, hpc, Option.isSome_map]
    exact markEvent_isSome hfree hfit 0
  | committingFanout event success => exact ⟨.commit, rfl, by simp [Worker.step, hpc]⟩

end Processor

/-- A review that waits for nothing has a step to take, unless it has ended. -/
theorem Review.Call.exists_step {w : World} {n : Nat} (c : Review.Call)
    (hrunning : ¬ Session.Finished (.review n) c)
    (hpayment : ∀ p, Session.awaits (.review n) c = some (.payment p) →
      w.payments.Free (.review n) p) :
    ∃ a, Session.isCrash (.review n) a = false ∧ (c.step (.review n) w a).isSome := by
  cases hpc : c.pc with
  | start => exact ⟨.load, rfl, by simp [Review.Call.step, hpc]⟩
  | loaded payment =>
    have hfree := hpayment c.paymentId (by simp [Session.awaits, hpc])
    refine ⟨.updateStatus, rfl, ?_⟩
    simp only [Review.Call.step, hpc, Review.updateStatus, Option.isSome_map,
      PaymentRepository.updateStatus, PaymentRepository.run]
    exact RowStore.update_isSome _ _ hfree
  | updated payment =>
    obtain ⟨k, hk⟩ := OutboxRepository.exists_addEvent w (.review n)
    refine ⟨.commit k 0, rfl, ?_⟩
    simp only [Review.Call.step, hpc, Review.commit]
    cases c.decision with
    | reject => rfl
    | approve =>
      rw [Option.isSome_map]
      exact hk _ rfl
  | committed payment => exact ⟨.recordReviewQueueSize, rfl, by simp [Review.Call.step, hpc]⟩
  | returned response | raised error | crashed =>
    exact absurd (by simp [Session.Finished, hpc]) hrunning

/-- A creation has a step to take until it has ended. -/
theorem Create.Run.exists_step {w : World} {n : Nat} (r : Create.Run)
    (hrunning : ¬ Session.Finished (.create n) r) :
    ∃ a, Session.isCrash (.create n) a = false ∧ (r.step (.create n) w a).isSome := by
  cases hpc : r.pc with
  | start =>
    refine ⟨.readSnapshot, rfl, ?_⟩
    simp only [Create.Run.step, hpc]
    split <;> rfl
  | gate => exact ⟨.acquire .answered, rfl, by simp [Create.Run.step, hpc]⟩
  | poll i | conflict =>
    refine ⟨.readSnapshot, rfl, ?_⟩
    simp only [Create.Run.step, hpc]
    split <;> rfl
  | pollPayment i | conflictPayment =>
    refine ⟨.readPayment, rfl, ?_⟩
    simp only [Create.Run.step, hpc]
    split <;> rfl
  | controls =>
    exact ⟨.runControls (.error .idempotencyConflict) 0, rfl, by simp [Create.Run.step, hpc]⟩
  | persist decision response =>
    refine ⟨.persist 0 0, rfl, ?_⟩
    simp only [Create.Run.step, hpc]
    split <;> rfl
  | committed response => exact ⟨.observe, rfl, by simp [Create.Run.step, hpc]⟩
  | returned response | raised error | crashed =>
    exact absurd (by simp [Session.Finished, hpc]) hrunning

namespace Payments

variable {cfg : Processor.Settings} {good : (payments cfg).Guard} {s₀ s : State cfg}
  {t t' : Session}

namespace Locked

/-- A session that waits for nobody has a step to take, unless it has ended. -/
theorem canStep (h : Locked s) (hfits : cfg.maxEventAttempts ≤ floatMaxExp + 1)
    (hrunning : ¬ t.Finished (s.proc t)) (hwaits : ∀ t', ¬ WaitsFor s t t') : CanStep s t := by
  have hpayment (p : UUID) (hp : t.awaits (s.proc t) = some (.payment p)) :
      s.world.payments.Free t p :=
    World.free_payment fun t' ht hheld => hwaits t' ⟨ht, _, hp, hheld⟩
  have hevent (k : UUID) (hk : t.awaits (s.proc t) = some (.event k)) : s.world.outbox.Free t k :=
    World.free_event fun t' ht hheld => hwaits t' ⟨ht, _, hk, hheld⟩
  cases t with
  | worker n =>
    have hinv : Processor.Worker.Inv cfg s.world (.worker n) (worker s n) :=
      h.integrity.inv (.worker n)
    obtain ⟨a, ha, hstep⟩ := hinv.exists_step hfits hpayment hevent
    exact canStep_of_step (t := .worker n) ha hstep
  | review n =>
    obtain ⟨a, ha, hstep⟩ := (review s n).exists_step hrunning hpayment
    exact canStep_of_step (t := .review n) ha hstep
  | create n =>
    obtain ⟨a, ha, hstep⟩ := (create s n).exists_step (w := s.world) hrunning
    exact canStep_of_step (t := .create n) ha hstep
  | environment =>
    have a : Session.Act .environment := EnvironmentAction.expireGate ""
    exact canStep_of_step (t := .environment) (a := a) rfl rfl

/-- A session that holds a row has not ended. -/
theorem not_finished (h : Locked s) {row : LockedRow} (hheld : s.world.Holds t row) :
    ¬ t.Finished (s.proc t) := by
  cases t with
  | worker n => exact id
  | review n =>
    intro hfinished
    have hinv : Review.Call.Inv s.world (.review n) (review s n) := h.integrity.inv (.review n)
    have hfinished : Session.Finished (.review n) (review s n) := hfinished
    refine (hinv.clean fun payment hpc => ?_).not_holds row hheld
    simp [Session.Finished, hpc] at hfinished
  | create n =>
    have hinv : Create.Run.Inv s.world (.create n) (create s n) := h.integrity.inv (.create n)
    exact absurd hheld (hinv.clean.not_holds row)
  | environment => exact id

/-- Along the sessions that are waited for there is one that has a step to take. -/
theorem exists_canStep (h : Locked s) (hfits : cfg.maxEventAttempts ≤ floatMaxExp + 1)
    (hrunning : ¬ t.Finished (s.proc t)) :
    ∃ t', Relation.ReflTransGen (WaitsFor s) t t' ∧ CanStep s t' := by
  have hheld {t t' : Session} (hw : WaitsFor s t t') : ¬ t'.Finished (s.proc t') := by
    obtain ⟨-, row, -, hholds⟩ := hw
    exact h.not_finished hholds
  by_cases h₁ : ∃ t₁, WaitsFor s t t₁
  · obtain ⟨t₁, h₁⟩ := h₁
    by_cases h₂ : ∃ t₂, WaitsFor s t₁ t₂
    · obtain ⟨t₂, h₂⟩ := h₂
      exact ⟨t₂, .tail (.single h₁) h₂,
        h.canStep hfits (hheld h₂) fun t₃ h₃ => h.not_waitsFor h₁ h₂ h₃⟩
    · exact ⟨t₁, .single h₁, h.canStep hfits (hheld h₁) fun t₂ h₂' => h₂ ⟨t₂, h₂'⟩⟩
  · exact ⟨t, .refl, h.canStep hfits hrunning fun t₁ h₁' => h₁ ⟨t₁, h₁'⟩⟩

/-- Nobody waits for itself, directly or through others. -/
theorem acyclic (h : Locked s) : ¬ Relation.TransGen (WaitsFor s) t t := by
  intro hcycle
  have hnext {u v : Session} (hw : Relation.TransGen (WaitsFor s) u v) :
      ∃ u', WaitsFor s u u' ∧ Relation.ReflTransGen (WaitsFor s) u' v :=
    Relation.TransGen.head'_iff.1 hw
  obtain ⟨t₁, h₁, hrest₁⟩ := hnext hcycle
  obtain ⟨t₂, h₂, hrest₂⟩ := hnext (.tail' hrest₁ h₁)
  obtain ⟨t₃, h₃, -⟩ := hnext (.tail' hrest₂ h₂)
  exact h.not_waitsFor h₁ h₂ h₃

end Locked

/-- There is no deadlock in any run of any number of workers, reviews and creations: nobody waits
for itself, and along those a session waits for there is always one that can go on. -/
theorem no_deadlock (hfits : cfg.maxEventAttempts ≤ floatMaxExp + 1) (h₀ : Initial s₀)
    (hrun : (payments cfg).Reaches good s₀ s) :
    (∀ t, ¬ Relation.TransGen (WaitsFor s) t t) ∧
      ∀ t, ¬ t.Finished (s.proc t) →
        ∃ t', Relation.ReflTransGen (WaitsFor s) t t' ∧ CanStep s t' :=
  have h := (Locked.initial h₀).of_reaches hrun
  ⟨fun _ => h.acyclic, fun _ hrunning => h.exists_canStep hfits hrunning⟩

set_option maxRecDepth 10000 in
/-- A worker waits for the payment that another one has with the provider. -/
theorem no_deadlock_raced : ∃ s : State sampleSettings, WaitsFor s (.worker 1) (.worker 0) ∧
    ¬ Relation.TransGen (WaitsFor s) (.worker 1) (.worker 1) ∧
    ∃ t', Relation.ReflTransGen (WaitsFor s) (.worker 1) t' ∧ CanStep s t' := by
  have hrun : (System.State.run (System.anyStep (payments sampleSettings)) (fetchedTwice ++
      [⟨.worker 1, Processor.WorkerAction.getById⟩] ++ callProvider 0 (answer false)) sample).map
        (fun s => ((s.world.payments.writes (.worker 0) 1).isSome, (worker s 1).pc.awaits)) =
      some (true, some (.payment 1)) := by decide
  obtain ⟨s, hs, heq⟩ := Option.map_eq_some_iff.1 hrun
  obtain ⟨hheld, hpc⟩ := Prod.mk.inj heq
  have h := no_deadlock (by decide) (fresh_initial _ _ _) (System.Reaches.of_run hs)
  refine ⟨s, ⟨by decide, .payment 1, hpc, fun hnone => ?_⟩, h.1 _, h.2 _ id⟩
  rw [hnone] at hheld
  cases hheld

end Payments

end PaymentsLab
