import PaymentsLab.Foundation.Potential
import PaymentsLab.System.Books
import PaymentsLab.System.Retries

/-!
# The processor catches up

Every commit of the processor uses up one of the rounds its queues may still need
(`World.roundsLeft`): a request has one for each attempt it has left and those of the outcome event
it may end with, an event of the fan-out has one for each attempt. A fetch that finds work is
followed by a commit before the next fetch. So once the API is at rest, a bounded number of fetches
past all `next_attempt_at` leaves no request, whatever the provider answers, and every payment is
decided, blocked or in review (`queue_drains`).
-/

namespace PaymentsLab

open Foundation

namespace Processor

/-! ## Queues -/

/-- The two queues of the outbox a worker fetches from. -/
inductive Queue
  | requested
  | fanout

namespace Queue

/-- The event waits in the queue. -/
def waits : Queue → OutboxEvent → Bool
  | .requested, row => OutboxRepository.isBacklog row
  | .fanout, row =>
    row.eventType ∈ [.paymentConfirmed, .paymentFailed, .paymentReviewRequired] ∧
      row.status = .pending

/-- The filter of a fetch. -/
def due : Queue → Instant → OutboxEvent → Bool
  | .requested => OutboxRepository.dueRequested
  | .fanout => OutboxRepository.dueFanout

/-- The time of a fetch from the queue. -/
def fetchTime : Queue → WorkerAction → Option Instant
  | .requested, .fetchPendingRequested now _ => some now
  | .fanout, .fetchPendingFanout now _ => some now
  | _, _ => none

theorem due_iff {q : Queue} {now : Instant} {row : OutboxEvent} :
    q.due now row = true ↔ q.waits row = true ∧ row.nextAttemptAt ≤ now := by
  cases q with
  | requested =>
    simp only [due, waits, OutboxRepository.dueRequested, OutboxRepository.isBacklog,
      decide_eq_true_eq]
    tauto
  | fanout =>
    simp only [due, waits, OutboxRepository.dueFanout, decide_eq_true_eq]
    tauto

theorem pending_of_waits {q : Queue} {row : OutboxEvent} (h : q.waits row = true) :
    row.status = .pending := by
  cases q with
  | requested =>
    simp only [waits, OutboxRepository.isBacklog, decide_eq_true_eq] at h
    exact h.1
  | fanout =>
    simp only [waits, decide_eq_true_eq] at h
    exact h.2

end Queue

/-! ## Rounds left -/

/-- The attempts an event has left. -/
def Settings.attemptsLeft (cfg : Settings) (row : OutboxEvent) : Nat :=
  (cfg.maxEventAttempts - row.attempts).toNat

/-- The rounds that handle an event, and the event its request may end with. -/
def Settings.roundsLeft (cfg : Settings) (row : OutboxEvent) : Nat :=
  if row.status = .pending then
    if row.eventType = .paymentRequested then cfg.attemptsLeft row + cfg.maxEventAttempts.toNat
    else cfg.attemptsLeft row
  else 0

/-- An event that is new and no request. -/
theorem Settings.roundsLeft_new {cfg : Settings} {row : OutboxEvent}
    (htype : row.eventType ≠ .paymentRequested) (hattempts : row.attempts = 0) :
    cfg.roundsLeft row ≤ cfg.maxEventAttempts.toNat := by
  unfold roundsLeft attemptsLeft
  rw [if_neg htype, hattempts]
  split <;> omega

/-- A mark takes a round off an event, and a closing one takes them all. -/
theorem Settings.roundsLeft_setMark {cfg : Settings} {row : OutboxEvent} {m : EventMark}
    (at' : Instant) (hpending : row.status = .pending)
    (hattempts : row.attempts < cfg.maxEventAttempts)
    (hm : ∀ attempts, m = .reschedule attempts →
      attempts = row.attempts + 1 ∧ attempts < cfg.maxEventAttempts) :
    cfg.roundsLeft (OutboxRepository.setMark at' m row) + 1 ≤ cfg.roundsLeft row ∧
      (m.delivery ≠ none → row.eventType = .paymentRequested →
        cfg.roundsLeft (OutboxRepository.setMark at' m row) + 1 + cfg.maxEventAttempts.toNat ≤
          cfg.roundsLeft row) := by
  cases m with
  | sent | failed =>
    have hclosed : ¬ OutboxStatus.sent = .pending ∧ ¬ OutboxStatus.failed = .pending := by decide
    simp only [roundsLeft, attemptsLeft, OutboxRepository.setMark, hpending, if_true, hclosed,
      if_false]
    refine ⟨?_, fun _ htype => ?_⟩
    · split <;> omega
    · rw [if_pos htype]
      omega
  | reschedule attempts =>
    obtain ⟨rfl, hless⟩ := hm attempts rfl
    simp only [roundsLeft, attemptsLeft, OutboxRepository.setMark, hpending, if_true]
    refine ⟨?_, fun hm' => absurd rfl hm'⟩
    split <;> omega

/-! ## Steps -/

/-- The event of a finalization is no request. -/
theorem Finalization.eventType_ne (f : Finalization) : f.eventType ≠ .paymentRequested := by
  cases f <;> exact fun h => by cases h

/-- The rows of the outbox after the commit of a mark. -/
theorem Worker.Inv.commit_rows {cfg : Settings} {w : World} {t : Session} {l : Worker}
    (h : Worker.Inv cfg w t l) {event : OutboxEvent} {m : EventMark}
    (hmarked : l.pc.marked cfg = some (event, m)) :
    ∃ added row at', w.outbox.committed event.eventId = some row ∧
      (∀ e, added = some e → w.outbox.committed e.eventId = none ∧ e.status = .pending ∧
        e.attempts = 0 ∧ e.eventType ≠ .paymentRequested ∧ event.eventType = .paymentRequested ∧
        m.delivery ≠ none) ∧
      (w.commit t).outbox.committed = Function.update
        (fun k => (singleEvent added k).or (w.outbox.committed k)) event.eventId
        (some (OutboxRepository.setMark at' m row)) := by
  obtain ⟨added, hem, hnew, hev⟩ := h.events
  rw [hmarked] at hev
  obtain ⟨row, at', hrow, hwrites⟩ := hev
  refine ⟨added, row, at', hrow, fun e he => ?_, funext fun k => ?_⟩
  · refine ⟨hnew e he, (hem.new he).1, (hem.new he).2, ?_⟩
    subst he
    cases hfinal : l.pc.emitted cfg with
    | none =>
      rw [hfinal] at hem
      exact hem.elim
    | some final =>
      rw [hfinal] at hem
      obtain ⟨eventId, now, rfl⟩ := hem
      refine ⟨final.2.eventType_ne, ?_⟩
      -- only the settling of a request has emitted
      cases hpc : l.pc with
      | committing event' branch =>
        rw [hpc] at hmarked hfinal
        obtain ⟨rfl, rfl⟩ : event' = event ∧ branch.mark cfg event' = m := by
          simpa [WorkerPc.marked] using hmarked
        refine ⟨(h.kind event' (.inr (by rw [hpc]; rfl))).2 (by rw [hpc]; rfl), ?_⟩
        cases branch with
        | missing | lost => cases hfinal
        | settled payment outcome =>
          rcases settlement_cases cfg event' payment outcome with ⟨n, hs⟩ | ⟨f, m, d, hs, hd, -⟩
          · simp [WorkerPc.emitted, hs] at hfinal
          · simp [Branch.mark, hs, hd]
      | committingFanout event' success =>
        rw [hpc] at hfinal
        cases hfinal
      | _ =>
        rw [hpc] at hmarked
        cases hmarked
  · rw [World.outbox_commit, RowStore.committed_commit, hwrites]
    by_cases hk : k = event.eventId
    · subst hk
      simp
    · simp [Function.update_of_ne hk]

/-- A worker that has ended `run_once` has no batch. -/
theorem Next.idle {cfg : Settings} {t : Session} {w w' : World} {l l' : Worker} {a : WorkerAction}
    (h : Next cfg t w l a w' l') (hpc : l'.pc = .idle) : l'.events = [] := by
  cases h with
  | ended pc events => exact events
  | crashed => rfl
  | _ => cases hpc

theorem Next.world_commit {cfg : Settings} {t : Session} {w w' : World} {l l' : Worker}
    (h : Next cfg t w l .commit w' l') : w' = w.commit t := by
  cases h <;> rfl

/-- A crash empties the hands of a worker. -/
theorem Next.hand_of_crash {cfg : Settings} {t : Session} {w w' : World} {l l' : Worker}
    {a : WorkerAction} (h : Next cfg t w l a w' l') (ha : a.isCrash = true) : l'.hand = [] := by
  cases h with
  | crashed => rfl
  | _ => cases ha

/-- What a step does to the events a worker has in memory, told by its action. -/
theorem Worker.step_hand {cfg : Settings} {t : Session} {w w' : World} {l l' : Worker}
    {a : WorkerAction} (hstep : l.step cfg t w a = some (w', l')) (ha : a.isCrash = false)
    (hidle : l.pc = .idle → l.events = []) :
    (l.commits cfg a = none ∧ l'.hand = l.hand ∧ ∀ q : Queue, q.fetchTime a = none) ∨
      (∃ event m, l.commits cfg a = some (event, m) ∧ l.hand = event :: l'.hand ∧
        ∀ q : Queue, q.fetchTime a = none) ∨
      (l.commits cfg a = none ∧ l.hand = [] ∧ ∃ (q : Queue) (now : Instant)
        (ordered : List OutboxEvent), OutboxRepository.Ordered w (q.due now) ordered ∧
          l'.hand = ordered.take cfg.batchSize ∧
          ∀ (q' : Queue) (now' : Instant), q'.fetchTime a = some now' → q' = q ∧ now' = now) := by
  have hn := next_of_step hstep
  have hother {a' : WorkerAction} (h₁ : Queue.fetchTime .requested a' = none)
      (h₂ : Queue.fetchTime .fanout a' = none) (q : Queue) : q.fetchTime a' = none := by
    cases q
    · exact h₁
    · exact h₂
  cases hn with
  | @fetched now ordered pc rows =>
    refine .inr (.inr ⟨rfl, by simp [hand, pc, hidle pc, WorkerPc.event], .requested, now, ordered,
      rows, rfl, fun q' now' hq => ?_⟩)
    cases q' with
    | requested =>
      cases hq
      exact ⟨rfl, rfl⟩
    | fanout => cases hq
  | @fetchedFanout now ordered pc rows =>
    have hempty : l.events = [] := by
      simp only [step, pc] at hstep
      split at hstep
      · next h => exact h.1
      · cases hstep
    refine .inr (.inr ⟨rfl, by simp [hand, pc, hempty, WorkerPc.event], .fanout, now, ordered,
      rows, rfl, fun q' now' hq => ?_⟩)
    cases q' with
    | requested => cases hq
    | fanout =>
      cases hq
      exact ⟨rfl, rfl⟩
  | found pc events | notFound pc events | published pc events =>
    exact .inl ⟨rfl, by simp [hand, pc, events, WorkerPc.event], hother rfl rfl⟩
  | markedMissing pc | locked pc | missed pc | markedLost pc | called pc | finalized pc
  | unfinalized pc | marked pc | markedFanout pc =>
    exact .inl ⟨rfl, by simp [hand, pc, WorkerPc.event], hother rfl rfl⟩
  | @committed event branch pc =>
    refine .inr (.inl ⟨event, branch.mark cfg event, ?_, ?_, hother rfl rfl⟩)
    · simp only [commits, pc, WorkerPc.marked]
    · simp [hand, pc, WorkerPc.event]
  | @committedFanout event success pc =>
    refine .inr (.inl ⟨event, fanoutMark cfg event success, ?_, ?_, hother rfl rfl⟩)
    · simp only [commits, pc, WorkerPc.marked]
    · simp [hand, pc, WorkerPc.event]
  | ended pc events =>
    refine .inl ⟨rfl, ?_, hother rfl rfl⟩
    rcases pc with pc | pc <;> simp [hand, pc, WorkerPc.event]
  | crashed => cases ha

end Processor

/-- The rounds the queues may still need. -/
def World.roundsLeft (cfg : Processor.Settings) (w : World) : Nat :=
  w.outbox.weight cfg.roundsLeft

/-- No event waits in the queue. -/
def World.Drained (w : World) (q : Processor.Queue) : Prop :=
  ∀ k row, w.outbox.committed k = some row → q.waits row = false

theorem World.drained_requested {w : World} :
    w.Drained .requested ↔ OutboxRepository.backlogSize w = 0 := by
  unfold OutboxRepository.backlogSize World.Drained
  simp only [List.countP_eq_zero, RowStore.mem_rows, Bool.not_eq_true]
  exact ⟨fun h row ⟨k, hk⟩ => h k row hk, fun h k row hk => h row ⟨k, hk⟩⟩

namespace Processor.Worker.Inv

variable {cfg : Settings} {w : World} {t : Session} {l : Worker} {event : OutboxEvent}
  {m : EventMark}

/-- The commit of a mark uses up a round. -/
theorem roundsLeft_commit (h : Worker.Inv cfg w t l) (hmarked : l.pc.marked cfg = some (event, m))
    (hcommitted : w.outbox.committed event.eventId = some event)
    (hpending : event.status = .pending) (hattempts : event.attempts < cfg.maxEventAttempts) :
    (w.commit t).roundsLeft cfg + 1 ≤ w.roundsLeft cfg := by
  obtain ⟨added, row, at', hrow, hadded, hrows⟩ := h.commit_rows hmarked
  cases hcommitted.symm.trans hrow
  have hreschedule (attempts : Int) (hm : m = .reschedule attempts) :
      attempts = event.attempts + 1 ∧ attempts < cfg.maxEventAttempts := by
    subst hm
    exact WorkerPc.marked_reschedule hmarked
  obtain ⟨hround, hclosing⟩ := Settings.roundsLeft_setMark at' hpending hattempts hreschedule
  have hbefore : w.outbox.weightAt cfg.roundsLeft event.eventId = cfg.roundsLeft event := by
    rw [RowStore.weightAt, hcommitted, Option.elim_some]
  have hafter : (w.commit t).outbox.weightAt cfg.roundsLeft event.eventId =
      cfg.roundsLeft (OutboxRepository.setMark at' m event) := by
    rw [RowStore.weightAt, hrows, Function.update_self, Option.elim_some]
  cases added with
  | none =>
    have hagree (k : UUID) (hk : k ∉ ({event.eventId} : Finset UUID)) :
        (w.commit t).outbox.committed k = w.outbox.committed k := by
      rw [hrows, Function.update_of_ne (Finset.notMem_singleton.1 hk)]
      rfl
    have hsum := RowStore.weight_add_of_agree cfg.roundsLeft _ hagree
    rw [Finset.sum_singleton, Finset.sum_singleton, hbefore, hafter] at hsum
    unfold World.roundsLeft
    omega
  | some e =>
    obtain ⟨hnew, -, hzero, htype, hrequest, hm⟩ := hadded e rfl
    have hne : event.eventId ≠ e.eventId := by
      intro heq
      cases (heq ▸ hcommitted).symm.trans hnew
    have hagree (k : UUID) (hk : k ∉ ({event.eventId, e.eventId} : Finset UUID)) :
        (w.commit t).outbox.committed k = w.outbox.committed k := by
      rw [Finset.mem_insert, Finset.mem_singleton, not_or] at hk
      rw [hrows, Function.update_of_ne hk.1, singleEvent_some, Function.update_of_ne hk.2]
      rfl
    have hsum := RowStore.weight_add_of_agree cfg.roundsLeft _ hagree
    have hbefore' : w.outbox.weightAt cfg.roundsLeft e.eventId = 0 := by
      rw [RowStore.weightAt, hnew, Option.elim_none]
    have hafter' : (w.commit t).outbox.weightAt cfg.roundsLeft e.eventId = cfg.roundsLeft e := by
      rw [RowStore.weightAt, hrows, Function.update_of_ne hne.symm, singleEvent_some_self,
        Option.some_or, Option.elim_some]
    rw [Finset.sum_pair hne, Finset.sum_pair hne, hbefore, hafter, hbefore', hafter'] at hsum
    have hemitted : cfg.roundsLeft e ≤ _ := Settings.roundsLeft_new htype hzero
    have hclosed := hclosing hm hrequest
    unfold World.roundsLeft
    omega

/-- The commit of a mark adds no request, and only that on a request adds anything. -/
theorem drained_commit (h : Worker.Inv cfg w t l) (hmarked : l.pc.marked cfg = some (event, m))
    {q : Queue} (hdrained : w.Drained q)
    (hkind : q = .requested ∨ event.eventType ≠ .paymentRequested) : (w.commit t).Drained q := by
  obtain ⟨added, row, at', hrow, hadded, hrows⟩ := h.commit_rows hmarked
  intro k row' hrow'
  rw [hrows] at hrow'
  by_cases hk : k = event.eventId
  · subst hk
    rw [Function.update_self] at hrow'
    cases hrow'
    have hbefore := hdrained _ row hrow
    refine Bool.eq_false_iff.2 fun hwaits => ?_
    have hpending := Queue.pending_of_waits hwaits
    cases m with
    | sent | failed => cases hpending
    | reschedule attempts =>
      have hsame : q.waits (OutboxRepository.setMark at' (.reschedule attempts) row) =
          q.waits row := by cases q <;> rfl
      rw [hsame, hbefore] at hwaits
      cases hwaits
  · rw [Function.update_of_ne hk] at hrow'
    cases hs : singleEvent added k with
    | none =>
      rw [hs, Option.none_or] at hrow'
      exact hdrained k row' hrow'
    | some e =>
      rw [hs, Option.some_or] at hrow'
      cases hrow'
      obtain ⟨he, -⟩ := singleEvent_eq_some hs
      obtain ⟨-, -, -, htype, hrequest, -⟩ := hadded row' he
      rcases hkind with rfl | hne
      · simp [Queue.waits, OutboxRepository.isBacklog, htype]
      · exact absurd hrequest hne

/-- Only the commit of a mark changes the committed rows of the outbox. -/
theorem committed_of_quiet {w' : World} {l' : Worker} {a : WorkerAction} (h : Worker.Inv cfg w t l)
    (hn : Next cfg t w l a w' l') (hquiet : l.commits cfg a = none) (k : UUID) :
    w'.outbox.committed k = w.outbox.committed k := by
  cases hn with
  | fetched | found | notFound | missed | unfinalized | fetchedFanout | ended | called | published
  | locked => rfl
  | crashed => simp
  | markedMissing pc mark | markedLost pc mark | marked pc mark | markedFanout pc mark =>
    exact committed_markEvent mark k
  | finalized pc final run =>
    obtain ⟨row₀, hwrites, -⟩ := h.held _ _ (by rw [pc]; rfl) (by rw [pc]; rfl)
    obtain ⟨-, -, -, -, rfl⟩ := Finalization.run_eq_some (by rw [hwrites, Function.update_self]) run
    simp
  | committed pc | committedFanout pc => simp [Worker.commits, pc, WorkerPc.marked] at hquiet

end Processor.Worker.Inv

/-- The time of a fetch from the queue. -/
def Session.fetchTime (q : Processor.Queue) : (t : Session) → t.Act → Option Instant
  | .worker _, a => q.fetchTime a
  | _, _ => none

namespace Payments

variable {cfg : Processor.Settings} {s₀ s s' : State cfg} {history : History cfg}

/-- Runs in which the API is at rest, and worker 0 goes on without stopping short. -/
def workerAlone : (payments cfg).Guard
  | .worker n, _, _, a => n = 0 ∧ Processor.WorkerAction.isCrash a = false
  | .environment, _, _, _ => True
  | _, _, _, _ => False

instance : (i : Session) → (w : World) → (l : (payments cfg).Local i) →
    (a : (payments cfg).Act i) → Decidable (@workerAlone cfg i w l a)
  | .worker n, _, _, a =>
    inferInstanceAs (Decidable (n = 0 ∧ Processor.WorkerAction.isCrash a = false))
  | .review _, _, _, _ => inferInstanceAs (Decidable False)
  | .create _, _, _, _ => inferInstanceAs (Decidable False)
  | .environment, _, _, _ => inferInstanceAs (Decidable True)

theorem oneProcessor_of_workerAlone {i : Session} {w : World} {l : (payments cfg).Local i}
    {a : (payments cfg).Act i} (h : workerAlone i w l a) : oneProcessor i w l a := by
  cases i with
  | worker n => exact h.1
  | review n | create n => exact h.elim
  | environment => trivial

/-- The step commits the mark of a round. -/
def endsAnyRound (x : (payments cfg).Taken) : Bool :=
  (Session.commits cfg x.process x.before x.act).isSome

/-- The step fetches from the queue when every event that waits there is due. -/
def sweeps (q : Processor.Queue) (x : (payments cfg).Taken) : Bool :=
  (Session.fetchTime q x.process x.act).any fun now =>
    x.world.outbox.rows.all fun row => !q.waits row || row.nextAttemptAt ≤ now

/-! ## The batch -/

/-- What runs with one processor maintain about its batch and the attempts. -/
structure Queued (s : State cfg) : Prop where
  current : Current 0 s
  attempts : ∀ k row, s.world.outbox.committed k = some row → row.status = .pending →
    row.attempts < cfg.maxEventAttempts
  idle : (worker s 0).pc = .idle → (worker s 0).events = []

namespace Queued

theorem initial (h : Initial s) : Queued s where
  current := .initial h
  attempts k row hrow := by
    rw [h.world] at hrow
    cases hrow
  idle _ := h.batch 0

theorem attempts_next (hmax : 1 ≤ cfg.maxEventAttempts) (h : Queued s) {i : Session} {a : i.Act}
    (hstep : s.step i a = some s') (k : UUID) (row : OutboxEvent)
    (hrow : s'.world.outbox.committed k = some row) (hpending : row.status = .pending) :
    row.attempts < cfg.maxEventAttempts := by
  have hrows := h.current.integrity.eventRows hstep
  by_cases hmarked : ∀ event m, Session.commits cfg i (s.proc i) a = some (event, m) →
      event.eventId ≠ k
  · rcases hrows.other k hmarked with hsame | ⟨-, e, he, -, hzero⟩
    · exact h.attempts k row (hsame ▸ hrow) hpending
    · cases he.symm.trans hrow
      omega
  · push Not at hmarked
    obtain ⟨event, m, hm, rfl⟩ := hmarked
    obtain ⟨row₀, at', hrow₀, hset⟩ := hrows.mark hm
    cases hset.symm.trans hrow
    cases m with
    | sent | failed => cases hpending
    | reschedule attempts =>
      cases i with
      | review | create | environment => cases hm
      | worker n =>
        have hmark : (worker s n).pc.marked cfg = some (event, .reschedule attempts) := by
          cases a <;> first | exact hm | cases hm
        exact (Processor.WorkerPc.marked_reschedule hmark).2

theorem next (hmax : 1 ≤ cfg.maxEventAttempts) (h : Queued s) {i : Session} {a : i.Act}
    (hguard : @oneProcessor cfg i s.world (s.proc i) a) (hstep : s.step i a = some s') :
    Queued s' := by
  refine ⟨?_, h.attempts_next hmax hstep, fun hpc => ?_⟩
  · cases i with
    | worker n =>
      cases (hguard : n = 0)
      cases ha : Processor.WorkerAction.isCrash a with
      | false => exact h.current.next (i := .worker 0) ⟨rfl, ha⟩ hstep
      | true =>
        have hhand : (worker s' 0).hand = [] :=
          (Processor.Worker.next_of_step (System.State.step_self hstep)).hand_of_crash ha
        refine ⟨(h.current.integrity.next hstep).2, ?_, ?_⟩ <;> simp [hhand]
    | review n => exact h.current.next (i := .review n) trivial hstep
    | create n => exact h.current.next (i := .create n) trivial hstep
    | environment => exact h.current.next (i := .environment) trivial hstep
  · by_cases hi : Session.worker 0 = i
    · subst hi
      exact (Processor.Worker.next_of_step (System.State.step_self hstep)).idle hpc
    · have hsame : worker s' 0 = worker s 0 := System.State.step_proc_ne hstep hi
      rw [hsame] at hpc ⊢
      exact h.idle hpc

theorem of_reaches (hmax : 1 ≤ cfg.maxEventAttempts) (h : Queued s)
    (hrun : (payments cfg).Reaches oneProcessor s s') : Queued s' :=
  hrun.invariant (fun hi hguard hstep => hi.next hmax hguard hstep) h

/-- The steps of a run in which the worker is alone. -/
inductive Alone (s : State cfg) (i : Session) (a : i.Act) (s' : State cfg) : Prop
  /-- neither a commit nor a fetch -/
  | quiet (commits : Session.commits cfg i (s.proc i) a = none)
    (rows : ∀ k, s'.world.outbox.committed k = s.world.outbox.committed k)
    (hand : (worker s' 0).hand = (worker s 0).hand) (fetches : ∀ q, Session.fetchTime q i a = none)
  | commit (event : OutboxEvent) (m : EventMark)
    (commits : Session.commits cfg i (s.proc i) a = some (event, m))
    (marked : (worker s 0).pc.marked cfg = some (event, m))
    (world : s'.world = s.world.commit (.worker 0))
    (hand : (worker s 0).hand = event :: (worker s' 0).hand)
    (fetches : ∀ q, Session.fetchTime q i a = none)
  | fetch (q : Processor.Queue) (now : Instant) (ordered : List OutboxEvent)
    (commits : Session.commits cfg i (s.proc i) a = none)
    (rows : ∀ k, s'.world.outbox.committed k = s.world.outbox.committed k)
    (before : (worker s 0).hand = [])
    (fetched : OutboxRepository.Ordered s.world (q.due now) ordered)
    (after : (worker s' 0).hand = ordered.take cfg.batchSize)
    (fetches : ∀ q' now', Session.fetchTime q' i a = some now' → q' = q ∧ now' = now)

theorem alone (h : Queued s) {i : Session} {a : i.Act}
    (hguard : @workerAlone cfg i s.world (s.proc i) a) (hstep : s.step i a = some s') :
    Alone s i a s' := by
  have hown := System.State.step_self hstep
  cases i with
  | worker n =>
    obtain ⟨rfl, ha⟩ := hguard
    have hn := Processor.Worker.next_of_step hown
    have hinv : Processor.Worker.Inv cfg s.world (.worker 0) (worker s 0) :=
      h.current.integrity.inv (.worker 0)
    rcases Processor.Worker.step_hand hown ha h.idle with ⟨hnone, hhand, hfetch⟩ |
        ⟨event, m, hm, hhand, hfetch⟩ | ⟨hnone, hbefore, q, now, ordered, hrows, hafter, hfetch⟩
    · exact .quiet hnone (hinv.committed_of_quiet hn hnone) hhand hfetch
    · have hcommit : a = .commit := by cases a <;> first | rfl | cases hm
      subst hcommit
      exact .commit event m hm hm hn.world_commit hhand hfetch
    · exact .fetch q now ordered hnone (hinv.committed_of_quiet hn hnone) hbefore hrows hafter
        hfetch
  | review n | create n => exact hguard.elim
  | environment =>
    have hsame : worker s' 0 = worker s 0 := System.State.step_proc_ne hstep (by decide)
    refine .quiet rfl (fun k => ?_) (by rw [hsame]) fun _ => rfl
    rw [← (Prod.mk.inj (Option.some.inj hown)).1]

/-- A step of the lonely worker pays for its commit. -/
theorem pays (h : Queued s) {i : Session} {a : i.Act}
    (hguard : @workerAlone cfg i s.world (s.proc i) a) (hstep : s.step i a = some s') :
    (if endsAnyRound ⟨i, s.world, s.proc i, a⟩ then 1 else 0) + s'.world.roundsLeft cfg ≤
      s.world.roundsLeft cfg := by
  have hsame (hnone : Session.commits cfg i (s.proc i) a = none)
      (hrows : ∀ k, s'.world.outbox.committed k = s.world.outbox.committed k) :
      (if endsAnyRound ⟨i, s.world, s.proc i, a⟩ then 1 else 0) + s'.world.roundsLeft cfg ≤
        s.world.roundsLeft cfg := by
    rw [World.roundsLeft, RowStore.weight_of_agree _ hrows]
    simp [endsAnyRound, hnone, World.roundsLeft]
  cases h.alone hguard hstep with
  | quiet hnone hrows | fetch _ _ _ hnone hrows => exact hsame hnone hrows
  | commit event m hm hmarked hworld hhand =>
    have hinv : Processor.Worker.Inv cfg s.world (.worker 0) (worker s 0) :=
      h.current.integrity.inv (.worker 0)
    obtain ⟨hcommitted, hpending⟩ := h.current.rows event (by simp [hhand])
    have hround := hinv.roundsLeft_commit hmarked hcommitted hpending
      (h.attempts _ event hcommitted hpending)
    have hends : @endsAnyRound cfg ⟨i, s.world, s.proc i, a⟩ = true := by
      simp [endsAnyRound, hm]
    rw [hends, hworld]
    simp only [if_true]
    omega

/-- A queue from which nothing waits stays so: the fan-out once there are no requests. -/
theorem drained (h : Queued s) {q : Processor.Queue} {i : Session} {a : i.Act}
    (hguard : @workerAlone cfg i s.world (s.proc i) a) (hstep : s.step i a = some s')
    (hdrained : s.world.Drained q) (hrequests : q = .requested ∨ s.world.Drained .requested) :
    s'.world.Drained q := by
  have hsame (hrows : ∀ k, s'.world.outbox.committed k = s.world.outbox.committed k) :
      s'.world.Drained q := by
    intro k row hrow
    exact hdrained k row (hrows k ▸ hrow)
  cases h.alone hguard hstep with
  | quiet hnone hrows | fetch _ _ _ hnone hrows => exact hsame hrows
  | commit event m hm hmarked hworld hhand =>
    have hinv : Processor.Worker.Inv cfg s.world (.worker 0) (worker s 0) :=
      h.current.integrity.inv (.worker 0)
    obtain ⟨hcommitted, hpending⟩ := h.current.rows event (by simp [hhand])
    rw [hworld]
    refine hinv.drained_commit hmarked hdrained (hrequests.imp_right fun hempty htype => ?_)
    have hnot := hempty _ event hcommitted
    simp [Processor.Queue.waits, OutboxRepository.isBacklog, hpending, htype] at hnot

end Queued

/-! ## Sweeps -/

/-- Each fetch that has found work was followed by a commit, except for a batch still in hand. -/
def Swept (q : Processor.Queue) (history : History cfg) (s : State cfg) : Prop :=
  s.world.Drained q ∨ history.countP (sweeps q) ≤
    history.countP endsAnyRound + if (worker s 0).hand = [] then 0 else 1

theorem Swept.next {q : Processor.Queue} (hbatch : 0 < cfg.batchSize) (h : Swept q history s)
    (hs : Queued s) {i : Session} {a : i.Act}
    (hguard : @workerAlone cfg i s.world (s.proc i) a) (hstep : s.step i a = some s')
    (hrequests : q = .requested ∨ s.world.Drained .requested) :
    Swept q (⟨i, s.world, s.proc i, a⟩ :: history) s' := by
  by_cases hdrained : s.world.Drained q
  · exact .inl (hs.drained hguard hstep hdrained hrequests)
  · have hcount := h.resolve_left hdrained
    have hnosweep (hfetch : ∀ q, Session.fetchTime q i a = none) :
        @sweeps cfg q ⟨i, s.world, s.proc i, a⟩ = false := by
      simp [sweeps, hfetch]
    refine .inr ?_
    rw [List.countP_cons, List.countP_cons]
    cases hs.alone hguard hstep with
    | quiet hnone hrows hhand hfetch =>
      rw [hnosweep hfetch, hhand]
      simp only [Bool.false_eq_true, if_false]
      omega
    | commit event m hm hmarked hworld hhand hfetch =>
      have hends : @endsAnyRound cfg ⟨i, s.world, s.proc i, a⟩ = true := by
        simp [endsAnyRound, hm]
      rw [hnosweep hfetch, hends]
      simp only [Bool.false_eq_true, if_false, if_true]
      split at hcount <;> omega
    | fetch q' now ordered hnone hrows hbefore hordered hafter hfetch =>
      rw [if_pos hbefore] at hcount
      by_cases hsweeps : @sweeps cfg q ⟨i, s.world, s.proc i, a⟩ = true
      · -- something waits and is due, so that the batch is not empty
        obtain ⟨now', htime, hall⟩ := (Option.any_eq_true _ _).1 hsweeps
        obtain ⟨rfl, rfl⟩ := hfetch q now' htime
        obtain ⟨k, row, hrow, hwaits⟩ : ∃ k row, s.world.outbox.committed k = some row ∧
            q.waits row = true := by
          simpa [World.Drained] using hdrained
        have hmem : row ∈ s.world.outbox.rows := RowStore.mem_rows.2 ⟨k, hrow⟩
        have hpast := List.all_eq_true.1 hall row hmem
        simp only [hwaits, Bool.not_true, Bool.false_or, decide_eq_true_eq] at hpast
        have hin : row ∈ ordered := hordered.1.mem_iff.2
          (List.mem_filter.2 ⟨hmem, Processor.Queue.due_iff.2 ⟨hwaits, hpast⟩⟩)
        have hne : (worker s' 0).hand ≠ [] := by
          rw [hafter, ne_eq, List.take_eq_nil_iff, not_or]
          exact ⟨by omega, List.ne_nil_of_mem hin⟩
        rw [if_neg hne, if_pos hsweeps]
        omega
      · rw [if_neg hsweeps]
        omega

/-- What the runs of the lonely worker maintain. -/
structure Draining (q : Processor.Queue) (history : History cfg) (s : State cfg) : Prop where
  queued : Queued s
  requests : q = .requested ∨ s.world.Drained .requested
  swept : Swept q history s

/-- Enough fetches past every `next_attempt_at` drain a queue, the fan-out after the requests. -/
theorem drained_of_sweeps (hmax : 1 ≤ cfg.maxEventAttempts) (hbatch : 0 < cfg.batchSize)
    (hs : Queued s) {q : Processor.Queue} (hrequests : q = .requested ∨ s.world.Drained .requested)
    (hrun : (payments cfg).Runs workerAlone.condition s history s')
    (hsweeps : s.world.roundsLeft cfg + 2 ≤ history.countP (sweeps q)) : s'.world.Drained q := by
  have h : Draining q history s' := by
    refine hrun.invariant (I := fun history s => Draining q history s)
      (fun hi hguard hstep => ?_) ⟨hs, hrequests, .inr (by simp)⟩
    exact ⟨hi.queued.next hmax (oneProcessor_of_workerAlone hguard) hstep,
      hi.requests.imp_right fun hempty => hi.queued.drained hguard hstep hempty (.inl rfl),
      hi.swept.next hbatch hi.queued hguard hstep hi.requests⟩
  obtain ⟨-, hpaid⟩ := hrun.pays (I := Queued) (fun s => s.world.roundsLeft cfg) endsAnyRound
    (fun hi hguard hstep => ⟨hi.next hmax (oneProcessor_of_workerAlone hguard) hstep,
      hi.pays hguard hstep⟩) hs
  refine h.swept.resolve_right fun hcount => ?_
  split at hcount <;> omega

/-- Without a backlog no payment is with the processor. -/
theorem decided_of_drained (h : OneProcessorHolds s) (hempty : s.world.Drained .requested)
    {p : UUID} {status : PaymentStatus} (hs : s.world.status p = some status) :
    status = .inReview ∨ status = .blocked ∨ status = .confirmed ∨ status = .failed := by
  have hphase := h.phases p
  have hopen : ¬ (s.world.status p = some .received ∨ s.world.status p = some .processing) := by
    rw [← World.ledger_status, ← hphase.pending_iff]
    rintro ⟨k, hk, hpending⟩
    obtain ⟨e, he, hstatus⟩ := World.exists_isEvent_status.2 ⟨hk, hpending⟩
    have hnot := hempty k e he.1
    simp [Processor.Queue.waits, OutboxRepository.isBacklog, hstatus, he.2.2] at hnot
  have hvalid : status ≠ .validated := hphase.ne_validated hs
  rw [hs] at hopen
  cases status with
  | received | processing => exact absurd (by decide) hopen
  | validated => exact absurd rfl hvalid
  | inReview => exact .inl rfl
  | blocked => exact .inr (.inl rfl)
  | confirmed => exact .inr (.inr (.inl rfl))
  | failed => exact .inr (.inr (.inr rfl))

/-- The worker alone, from `s` to `s'`, catches up with what has been submitted. -/
structure CatchesUp (s : State cfg) (history : History cfg) (s' : State cfg) : Prop where
  /-- every commit uses up a round that was left -/
  bounded : history.countP endsAnyRound + s'.world.roundsLeft cfg ≤ s.world.roundsLeft cfg
  /-- enough sweeps leave no payment with the processor -/
  decided : s.world.roundsLeft cfg + 2 ≤ history.countP (sweeps .requested) →
    OutboxRepository.backlogSize s'.world = 0 ∧ ∀ p status, s'.world.status p = some status →
      status = .inReview ∨ status = .blocked ∨ status = .confirmed ∨ status = .failed
  /-- and without a backlog enough sweeps of the fan-out leave nothing to publish -/
  published : OutboxRepository.backlogSize s.world = 0 →
    s.world.roundsLeft cfg + 2 ≤ history.countP (sweeps .fanout) → s'.world.Drained .fanout

/-- The queues drain: once the API is at rest, one worker that goes on without stopping short spends
at most the rounds that are left, whatever the provider and the event bus answer, and as many
fetches at which all that waits is due leave nothing undecided, and then nothing unpublished. -/
theorem queue_drains (hmax : 1 ≤ cfg.maxEventAttempts) (hbatch : 0 < cfg.batchSize)
    (h₀ : Initial s₀) (hrun : (payments cfg).Reaches oneProcessor s₀ s)
    (hlater : (payments cfg).Runs workerAlone.condition s history s') :
    CatchesUp s history s' := by
  have hs := (Queued.initial h₀).of_reaches hmax hrun
  have hreaches : (payments cfg).Reaches oneProcessor s s' :=
    hlater.reaches fun _ _ _ hguard => oneProcessor_of_workerAlone hguard
  have hholds := ((OneProcessorHolds.initial h₀).of_reaches hrun).of_reaches hreaches
  refine ⟨?_, fun hsweeps => ?_, fun hbacklog hsweeps => ?_⟩
  · exact (hlater.pays (I := Queued) (fun s => s.world.roundsLeft cfg) endsAnyRound
      (fun hi hguard hstep => ⟨hi.next hmax (oneProcessor_of_workerAlone hguard) hstep,
        hi.pays hguard hstep⟩) hs).2
  · have hempty := drained_of_sweeps hmax hbatch hs (.inl rfl) hlater hsweeps
    exact ⟨World.drained_requested.1 hempty, fun p status => decided_of_drained hholds hempty⟩
  · exact drained_of_sweeps hmax hbatch hs (.inr (World.drained_requested.2 hbacklog)) hlater
      hsweeps

/-- One attempt for each event. -/
def singleAttempt : Processor.Settings where
  batchSize := 50
  maxEventAttempts := 1
  eventPublisherEnabled := false
  synchronizeSession := true

set_option maxRecDepth 10000 in
/-- The provider times out in the only round of a payment: it has failed after four fetches. -/
theorem queue_drains_timeout : ∃ (s : State singleAttempt) (history : History singleAttempt)
    (s' : State singleAttempt), s.world.status 1 = some .received ∧
      s'.world.status 1 = some .failed ∧ CatchesUp s history s' ∧
      OutboxRepository.backlogSize s'.world = 0 := by
  let start : State singleAttempt := fresh singleAttempt
    (fun _ => ⟨.approve, 1, "review", none, .start⟩)
    fun n => ⟨⟨"m", "c", "a", "k"⟩, ⟨⟨10000, -2⟩, "BRL", .pix, none⟩, s!"trace{n}", none, .start⟩
  let fetch (ordered : List OutboxEvent) : List (Σ i, (payments singleAttempt).Act i) :=
    [⟨.worker 0, Processor.WorkerAction.fetchPendingRequested 0 ordered⟩]
  let finish : List (Σ i, (payments singleAttempt).Act i) :=
    [⟨.worker 0, Processor.WorkerAction.endRun⟩]
  have hrun : ((System.State.run oneProcessor (creation 0 ⟨0, .allow, .allow⟩ 1 10) start).bind
      fun s => (System.State.trace (fun i w l a => decide (@workerAlone singleAttempt i w l a))
        (fetch [sampleRequest] ++ callProvider 0 .timeout ++ settle 0 20 0 ++ finish ++ fetch [] ++
          finish ++ fetch [] ++ finish ++ fetch []) [] s).map fun r =>
            (s.world.status 1, r.2.world.status 1, s.world.roundsLeft singleAttempt,
              r.1.countP (sweeps .requested))) =
      some (some .received, some .failed, 2, 4) := by decide
  obtain ⟨s, hs, hrest⟩ := Option.bind_eq_some_iff.1 hrun
  obtain ⟨⟨history, s'⟩, htrace, heq⟩ := Option.map_eq_some_iff.1 hrest
  simp only [Prod.mk.injEq] at heq
  obtain ⟨hbefore, hafter, hleft, hsweeps⟩ := heq
  have hcatches := queue_drains (by decide) (by decide) (fresh_initial _ _ _)
    (System.Reaches.of_run hs)
    (System.Runs.of_trace (fun _ _ _ _ => of_decide_eq_true) htrace .refl)
  exact ⟨s, history, s', hbefore, hafter, hcatches, (hcatches.decided (by rw [hleft, hsweeps])).1⟩

end Payments

end PaymentsLab
