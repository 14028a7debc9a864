import PaymentsLab.System.EventRows

/-!
# Retries are bounded

A processing round of an event ends with the commit of the mark on it. Under one worker whose
commits succeed, the `attempts` of a pending event are the rounds it has had, all of them failed
(`Accounts`): the batch in hand is what is committed, so the count in memory is never stale. Hence
an event has at most `max_event_attempts` rounds, of at most three provider calls each
(`retries_bounded`). With more than 1025 attempts a round can end with the `OverflowError` of its
backoff instead, and no attempt is counted for it (`retries_uncounted`).
-/

namespace PaymentsLab

open Foundation

namespace Processor

/-- The calls of `ProviderClientAdapter.confirm` a step makes for event `k`. -/
def Worker.confirmCalls (l : Worker) (k : UUID) (a : WorkerAction) : Nat :=
  match l.pc, a with
  | .processing event payment, .callProvider started ended http =>
    if event.eventId = k then
      (CallProviderCommand.execute l.breakers payment.method started ended http).confirms
    else 0
  | _, _ => 0

/-- The events a worker has in memory: the one in hand and the rest of the batch. -/
def Worker.hand (l : Worker) : List OutboxEvent :=
  l.pc.event.toList ++ l.events

/-- The event in hand, once its provider call is over. -/
def WorkerPc.answeredEvent : WorkerPc → Option OutboxEvent
  | .answered event _ _ => some event
  | .finalized event _ _ => some event
  | .committing event (.settled _ _) => some event
  | _ => none

def WorkerAction.isCrash : WorkerAction → Bool
  | .crash => true
  | _ => false

theorem WorkerPc.event_of_answeredEvent {pc : WorkerPc} {event : OutboxEvent}
    (h : pc.answeredEvent = some event) : pc.event = some event := by
  unfold answeredEvent at h
  split at h <;> cases h <;> rfl

theorem WorkerPc.event_of_marked {cfg : Settings} {pc : WorkerPc} {event : OutboxEvent}
    {m : EventMark} (h : pc.marked cfg = some (event, m)) : pc.event = some event := by
  unfold marked at h
  split at h <;> cases h <;> rfl

/-- A reschedule counts one more attempt, and leaves one more. -/
theorem settlement_reschedule {cfg : Settings} {event : OutboxEvent} {payment : Payment}
    {outcome : Except CallError ProviderResponse} {attempts : Int}
    (h : (settlement cfg event payment outcome).mark = .reschedule attempts) :
    attempts = event.attempts + 1 ∧ attempts < cfg.maxEventAttempts := by
  unfold settlement at h
  split at h
  · split at h <;> cases h
  · split at h
    · simp only [handleProcessorError] at h
      split at h <;> cases h
      exact ⟨rfl, by omega⟩
    · cases h

theorem fanoutMark_reschedule {cfg : Settings} {event : OutboxEvent} {success : Bool}
    {attempts : Int} (h : fanoutMark cfg event success = .reschedule attempts) :
    attempts = event.attempts + 1 ∧ attempts < cfg.maxEventAttempts := by
  unfold fanoutMark at h
  split at h
  · cases h
  · dsimp only at h
    split at h <;> cases h
    exact ⟨rfl, by omega⟩

theorem WorkerPc.marked_reschedule {cfg : Settings} {pc : WorkerPc} {event : OutboxEvent}
    {attempts : Int} (h : pc.marked cfg = some (event, .reschedule attempts)) :
    attempts = event.attempts + 1 ∧ attempts < cfg.maxEventAttempts := by
  unfold marked at h
  split at h
  · next branch =>
    simp only [Option.some.injEq, Prod.mk.injEq] at h
    obtain ⟨rfl, h⟩ := h
    cases branch with
    | missing | lost => cases h
    | settled payment outcome => exact settlement_reschedule h
  · simp only [Option.some.injEq, Prod.mk.injEq] at h
    obtain ⟨rfl, h⟩ := h
    exact fanoutMark_reschedule h
  · cases h

/-- The event in hand, if the backoff of the mark that comes next on it overflows. -/
def WorkerPc.overflowing (cfg : Settings) : WorkerPc → Option OutboxEvent
  | .finalized event payment outcome =>
    if EventMark.Overflows (settlement cfg event payment outcome).mark then some event else none
  | .published event success =>
    if EventMark.Overflows (fanoutMark cfg event success) then some event else none
  | _ => none

/-- The backoffs of at most 1025 attempts do not overflow. -/
theorem WorkerPc.overflowing_eq_none {cfg : Settings}
    (hmax : cfg.maxEventAttempts ≤ floatMaxExp + 1) (pc : WorkerPc) :
    pc.overflowing cfg = none := by
  have hmark (m : EventMark) (hm : ∀ attempts, m = .reschedule attempts →
      attempts < cfg.maxEventAttempts) : ¬ EventMark.Overflows m := by
    cases m with
    | sent => exact id
    | failed attempts => exact id
    | reschedule attempts =>
      have hattempts := hm attempts rfl
      have hexp : floatMaxExp = 1024 := rfl
      change ¬ floatMaxExp ≤ attempts.toNat - 1
      omega
  cases pc with
  | finalized event payment outcome =>
    exact if_neg (hmark _ fun attempts h => (settlement_reschedule h).2)
  | published event success => exact if_neg (hmark _ fun attempts h => (fanoutMark_reschedule h).2)
  | _ => rfl

/-- The event whose processing a step ends with the `OverflowError` of its backoff. -/
def Worker.raises (cfg : Settings) (l : Worker) : WorkerAction → Option OutboxEvent
  | .crash => l.pc.overflowing cfg
  | _ => none

theorem Worker.raises_eq_none (cfg : Settings) (l : Worker) {a : WorkerAction}
    (h : a.isCrash = false) : l.raises cfg a = none := by
  cases a with
  | crash => cases h
  | _ => rfl

/-- What a step does to the events a worker has in memory. -/
theorem Next.hand {cfg : Settings} {t : Session} {w w' : World} {l l' : Worker} {a : WorkerAction}
    (h : Next cfg t w l a w' l') :
    (l.commits cfg a = none ∧ l'.hand = l.hand) ∨
      (∃ event m, l.commits cfg a = some (event, m) ∧ l.hand = event :: l'.hand) ∨
      (l.commits cfg a = none ∧ w' = w ∧ ∃ due ordered, OutboxRepository.Ordered w due ordered ∧
        (∀ e, due e = true → e.status = .pending) ∧ l'.hand = ordered.take cfg.batchSize) ∨
      (l.commits cfg a = none ∧ l'.hand = []) := by
  cases h with
  | fetched pc rows =>
    refine .inr (.inr (.inl ⟨rfl, rfl, _, _, rows, fun e he => ?_, rfl⟩))
    simp only [OutboxRepository.dueRequested, decide_eq_true_eq] at he
    exact he.2.1
  | fetchedFanout pc rows =>
    refine .inr (.inr (.inl ⟨rfl, rfl, _, _, rows, fun e he => ?_, rfl⟩))
    simp only [OutboxRepository.dueFanout, decide_eq_true_eq] at he
    exact he.2.1
  | found pc events | notFound pc events | published pc events =>
    exact .inl ⟨rfl, by simp [Worker.hand, pc, events, WorkerPc.event]⟩
  | markedMissing pc | locked pc | missed pc | markedLost pc | called pc | finalized pc
  | unfinalized pc | marked pc | markedFanout pc =>
    exact .inl ⟨rfl, by simp [Worker.hand, pc, WorkerPc.event]⟩
  | @committed event branch pc =>
    refine .inr (.inl ⟨event, branch.mark cfg event, ?_, ?_⟩)
    · simp only [Worker.commits, pc, WorkerPc.marked]
    · simp [Worker.hand, pc, WorkerPc.event]
  | @committedFanout event success pc =>
    refine .inr (.inl ⟨event, fanoutMark cfg event success, ?_, ?_⟩)
    · simp only [Worker.commits, pc, WorkerPc.marked]
    · simp [Worker.hand, pc, WorkerPc.event]
  | ended pc events => exact .inr (.inr (.inr ⟨rfl, by simp [Worker.hand, events, WorkerPc.event]⟩))
  | crashed => exact .inr (.inr (.inr ⟨rfl, rfl⟩))

/-- The provider calls of a step, against the place before and after it. -/
theorem Next.confirmCalls {cfg : Settings} {t : Session} {w w' : World} {l l' : Worker}
    {a : WorkerAction} (h : Next cfg t w l a w' l') (ha : a.isCrash = false) (k : UUID) :
    (∀ event m, l.commits cfg a = some (event, m) → l.confirmCalls k a = 0 ∧
      l'.pc.answeredEvent = none ∧ ∀ e, l.pc.answeredEvent = some e → e = event) ∧
    (l.commits cfg a = none →
      l'.pc.answeredEvent = l.pc.answeredEvent ∧ l.confirmCalls k a = 0 ∨
      ∃ event, l.pc.answeredEvent = none ∧ l'.pc.answeredEvent = some event ∧
        l.confirmCalls k a ≤ if event.eventId = k then 3 else 0) := by
  cases h with
  | @called event payment started ended http run pc call =>
    refine ⟨fun _ _ hm => (by cases hm), fun _ => .inr ⟨event, ?_, rfl, ?_⟩⟩
    · rw [pc]
      rfl
    · simp only [Worker.confirmCalls, pc]
      split
      · exact CallProviderCommand.execute_confirms_le _ _ _ _ _
      · exact le_rfl
  | @committed event branch pc =>
    refine ⟨fun event' m hm => ⟨by simp [Worker.confirmCalls, pc], rfl, fun e he => ?_⟩,
      fun hm => ?_⟩
    · simp only [Worker.commits, pc, WorkerPc.marked, Option.some.injEq, Prod.mk.injEq] at hm
      have hevent := WorkerPc.event_of_answeredEvent he
      rw [pc] at hevent
      cases hevent
      exact hm.1
    · simp [Worker.commits, pc, WorkerPc.marked] at hm
  | @committedFanout event success pc =>
    refine ⟨fun event' m hm => ⟨by simp [Worker.confirmCalls, pc], rfl, fun e he => ?_⟩,
      fun hm => ?_⟩
    · rw [pc] at he
      cases he
    · simp [Worker.commits, pc, WorkerPc.marked] at hm
  | crashed => cases ha
  | ended pc events =>
    refine ⟨fun _ _ hm => (by cases hm), fun _ => .inl ?_⟩
    rcases pc with pc | pc <;> simp [Worker.confirmCalls, pc, WorkerPc.answeredEvent]
  | fetched pc | found pc | notFound pc | markedMissing pc | locked pc | missed pc | markedLost pc
  | finalized pc | unfinalized pc | marked pc | fetchedFanout pc | published pc
  | markedFanout pc =>
    exact ⟨fun _ _ hm => (by cases hm), fun _ => .inl (by
      simp [Worker.confirmCalls, pc, WorkerPc.answeredEvent])⟩

end Processor

/-- The event whose processing a step ends with an `OverflowError`. -/
def Session.raises (cfg : Processor.Settings) : (t : Session) → t.Local → t.Act → Option OutboxEvent
  | .worker _, l, a => Processor.Worker.raises cfg l a
  | _, _, _ => none

namespace Payments

variable {cfg : Processor.Settings}

/-- Runs in which worker `n` is the only worker and its commits succeed: `run_once` stops short only
where a backoff overflows. -/
def commitsSucceed (n : Nat) : (payments cfg).Guard
  | .worker m, _, l, a => m = n ∧
      (Processor.WorkerAction.isCrash a = true →
        (Processor.WorkerPc.overflowing cfg (Processor.Worker.pc l)).isSome = true)
  | _, _, _, _ => True

instance (n : Nat) : (i : Session) → (w : World) → (l : (payments cfg).Local i) →
    (a : (payments cfg).Act i) → Decidable (@commitsSucceed cfg n i w l a)
  | .worker m, _, l, a =>
    inferInstanceAs (Decidable (m = n ∧ (Processor.WorkerAction.isCrash a = true →
      (Processor.WorkerPc.overflowing cfg (Processor.Worker.pc l)).isSome = true)))
  | .review _, _, _, _ => inferInstanceAs (Decidable True)
  | .create _, _, _, _ => inferInstanceAs (Decidable True)
  | .environment, _, _, _ => inferInstanceAs (Decidable True)

/-- Such runs in which `run_once` never stops short. -/
def soleWorker (n : Nat) : (payments cfg).Guard
  | .worker m, _, _, a => m = n ∧ Processor.WorkerAction.isCrash a = false
  | _, _, _, _ => True

instance (n : Nat) : (i : Session) → (w : World) → (l : (payments cfg).Local i) →
    (a : (payments cfg).Act i) → Decidable (@soleWorker cfg n i w l a)
  | .worker m, _, _, a =>
    inferInstanceAs (Decidable (m = n ∧ Processor.WorkerAction.isCrash a = false))
  | .review _, _, _, _ => inferInstanceAs (Decidable True)
  | .create _, _, _, _ => inferInstanceAs (Decidable True)
  | .environment, _, _, _ => inferInstanceAs (Decidable True)

/-- No step raises where `run_once` does not stop short. -/
theorem raises_eq_none {n : Nat} {i : Session} {w : World} {l : (payments cfg).Local i}
    {a : (payments cfg).Act i} (h : soleWorker n i w l a) : Session.raises cfg i l a = none := by
  cases i with
  | worker m => exact Processor.Worker.raises_eq_none cfg l h.2
  | review m => rfl
  | create m => rfl
  | environment => rfl

/-- With at most 1025 attempts it never does. -/
theorem soleWorker_of_commitsSucceed (hmax : cfg.maxEventAttempts ≤ floatMaxExp + 1) {n : Nat}
    {i : Session} {w : World} {l : (payments cfg).Local i} {a : (payments cfg).Act i}
    (h : commitsSucceed n i w l a) : soleWorker n i w l a := by
  cases i with
  | worker m =>
    refine ⟨h.1, Bool.eq_false_iff.2 fun hcrash => ?_⟩
    have hover := h.2 hcrash
    rw [Processor.WorkerPc.overflowing_eq_none hmax] at hover
    cases hover
  | review m => trivial
  | create m => trivial
  | environment => trivial

theorem commitsSucceed_of_soleWorker {n : Nat} {i : Session} {w : World}
    {l : (payments cfg).Local i} {a : (payments cfg).Act i} (h : soleWorker n i w l a) :
    commitsSucceed n i w l a := by
  cases i with
  | worker m => exact ⟨h.1, fun hcrash => absurd (h.2.symm.trans hcrash) Bool.false_ne_true⟩
  | review m => trivial
  | create m => trivial
  | environment => trivial

/-! ## The batch of the only worker -/

/-- The events a worker has in memory are the committed rows, all pending, each of them once. -/
structure Current (n : Nat) (s : State cfg) : Prop where
  integrity : Integrity s
  rows : ∀ e ∈ (worker s n).hand, s.world.outbox.committed e.eventId = some e ∧ e.status = .pending
  distinct : ((worker s n).hand.map OutboxEvent.eventId).Nodup

namespace Current

variable {n : Nat} {s s' : State cfg}

theorem initial (h : Initial s) : Current n s where
  integrity := .initial h
  rows e he := by
    simp [Processor.Worker.hand, h.batch n, h.worker n, Processor.WorkerPc.event] at he
  distinct := by simp [Processor.Worker.hand, h.batch n, h.worker n, Processor.WorkerPc.event]

/-- A batch just fetched. -/
theorem fetched {w : World} (hw : w.WF) {due : OutboxEvent → Bool} {ordered : List OutboxEvent}
    (hrows : OutboxRepository.Ordered w due ordered)
    (hdue : ∀ e, due e = true → e.status = .pending) (size : Nat) :
    (∀ e ∈ ordered.take size, w.outbox.committed e.eventId = some e ∧ e.status = .pending) ∧
      ((ordered.take size).map OutboxEvent.eventId).Nodup := by
  refine ⟨fun e he => ?_, ?_⟩
  · obtain ⟨hpass, k, hk⟩ := hrows.mem (List.mem_of_mem_take he)
    have hkey := hw.outbox.committed_key hk
    subst hkey
    exact ⟨hk, hdue e hpass⟩
  · have hall : (w.outbox.rows.map OutboxEvent.eventId).Nodup :=
      RowStore.nodup_map_rows fun k r hk => hw.outbox.committed_key hk
    have hfilter := hall.sublist ((List.filter_sublist (p := due)).map OutboxEvent.eventId)
    have hordered := (hrows.1.map OutboxEvent.eventId).nodup_iff.2 hfilter
    exact hordered.sublist ((List.take_sublist size ordered).map OutboxEvent.eventId)

/-- The mark a step of such a run commits is that of the event in hand, which is as committed. -/
theorem commits (h : Current n s) {i : Session} {a : i.Act}
    (hgood : soleWorker n i s.world (s.proc i) a) {event : OutboxEvent} {m : EventMark}
    (hm : Session.commits cfg i (s.proc i) a = some (event, m)) :
    i = .worker n ∧ (worker s n).pc.marked cfg = some (event, m) ∧
      s.world.outbox.committed event.eventId = some event ∧ event.status = .pending := by
  cases i with
  | review | create | environment => cases hm
  | worker j =>
    obtain ⟨rfl, -⟩ := hgood
    have hmarked : (worker s j).pc.marked cfg = some (event, m) := by
      cases a <;> first | exact hm | cases hm
    have hevent := Processor.WorkerPc.event_of_marked hmarked
    refine ⟨rfl, hmarked, h.rows event ?_⟩
    simp [Processor.Worker.hand, hevent]

theorem next (h : Current n s) {i : Session} {a : i.Act}
    (hgood : soleWorker n i s.world (s.proc i) a) (hstep : s.step i a = some s') :
    Current n s' := by
  have hint := (h.integrity.next hstep).2
  have hrows := h.integrity.eventRows hstep
  have hkept {e : OutboxEvent} (he : e ∈ (worker s n).hand)
      (hother : ∀ event m, Session.commits cfg i (s.proc i) a = some (event, m) →
        event.eventId ≠ e.eventId) : s'.world.outbox.committed e.eventId = some e := by
    obtain ⟨hrow, -⟩ := h.rows e he
    rcases hrows.kept hrow with hsame | ⟨event, m, -, hm, hid, -⟩
    · exact hsame
    · exact absurd hid (hother event m hm)
  by_cases hi : i = .worker n
  · subst hi
    have hn := Processor.Worker.next_of_step (System.State.step_self hstep)
    rcases hn.hand with ⟨hnone, hsame⟩ | ⟨event, m, hm, hhand⟩ |
        ⟨-, hworld, due, ordered, hordered, hdue, hhand⟩ | ⟨-, hnil⟩
    · have hhand : (worker s' n).hand = (worker s n).hand := hsame
      refine ⟨hint, fun e he => ?_, hhand ▸ h.distinct⟩
      rw [hhand] at he
      refine ⟨hkept he fun event m hm => ?_, (h.rows e he).2⟩
      cases hnone.symm.trans hm
    · have hhand : (worker s n).hand = event :: (worker s' n).hand := hhand
      have hdistinct := h.distinct
      rw [hhand, List.map_cons, List.nodup_cons] at hdistinct
      refine ⟨hint, fun e he => ?_, hdistinct.2⟩
      have hmem : e ∈ (worker s n).hand := by
        rw [hhand]
        exact List.mem_cons_of_mem event he
      refine ⟨hkept hmem fun event' m' hm' heq => ?_, (h.rows e hmem).2⟩
      cases hm.symm.trans hm'
      exact hdistinct.1 (List.mem_map.2 ⟨e, he, heq.symm⟩)
    · have hhand : (worker s' n).hand = ordered.take cfg.batchSize := hhand
      obtain ⟨hcommitted, hdistinct⟩ :=
        fetched h.integrity.wf hordered hdue cfg.batchSize
      rw [← hworld] at hcommitted
      exact ⟨hint, hhand ▸ hcommitted, hhand ▸ hdistinct⟩
    · have hnil : (worker s' n).hand = [] := hnil
      exact ⟨hint, by simp [hnil], by simp [hnil]⟩
  · have hsame : worker s' n = worker s n := System.State.step_proc_ne hstep (Ne.symm hi)
    refine ⟨hint, fun e he => ?_, hsame ▸ h.distinct⟩
    rw [hsame] at he
    refine ⟨hkept he fun event m hm => ?_, (h.rows e he).2⟩
    exact absurd (h.commits hgood hm).1 hi

end Current

/-! ## Counting -/

/-- The step raises in a processing round of event `k`. -/
def raisesRound (k : UUID) (x : (payments cfg).Taken) : Bool :=
  (Session.raises cfg x.process x.before x.act).any fun event => event.eventId = k

/-- The step ends a processing round of event `k`. -/
def endsRound (k : UUID) (x : (payments cfg).Taken) : Bool :=
  ((Session.commits cfg x.process x.before x.act).any fun m => m.1.eventId = k) || raisesRound k x

/-- The step ends a round of event `k` that has failed. -/
def endsFailedRound (k : UUID) (x : (payments cfg).Taken) : Bool :=
  ((Session.commits cfg x.process x.before x.act).any fun m => m.1.eventId = k ∧ m.2 ≠ .sent) ||
    raisesRound k x

/-- The processing rounds event `k` has had. -/
def rounds (k : UUID) (history : History cfg) : Nat :=
  history.countP (endsRound k)

/-- The rounds of event `k` that have failed. -/
def failedRounds (k : UUID) (history : History cfg) : Nat :=
  history.countP (endsFailedRound k)

/-- The calls of `ProviderClientAdapter.confirm` a step of a session makes for event `k`. -/
def callsOfStep (k : UUID) : (t : Session) → t.Local → t.Act → Nat
  | .worker _, l, a => Processor.Worker.confirmCalls l k a
  | _, _, _ => 0

/-- The calls of `ProviderClientAdapter.confirm` made for event `k`. -/
def confirmCalls (k : UUID) : History cfg → Nat
  | [] => 0
  | x :: history => callsOfStep k x.process x.before x.act + confirmCalls k history

section Counting

variable {x : (payments cfg).Taken} {k : UUID}

/-- A step that neither raises nor commits a mark on `k` ends no round of it. -/
theorem rounds_other (history : History cfg)
    (hraises : Session.raises cfg x.process x.before x.act = none)
    (h : ∀ event m, Session.commits cfg x.process x.before x.act = some (event, m) →
      event.eventId ≠ k) :
    rounds k (x :: history) = rounds k history ∧
      failedRounds k (x :: history) = failedRounds k history := by
  cases hm : Session.commits cfg x.process x.before x.act with
  | none => simp [rounds, failedRounds, endsRound, endsFailedRound, raisesRound, hraises, hm]
  | some m =>
    have hne := h m.1 m.2 hm
    simp [rounds, failedRounds, endsRound, endsFailedRound, raisesRound, hraises, hm, hne]

/-- A step that commits a mark on `k` ends a round of it. -/
theorem rounds_marked (history : History cfg) {event : OutboxEvent} {m : EventMark}
    (h : Session.commits cfg x.process x.before x.act = some (event, m))
    (hk : event.eventId = k) :
    rounds k (x :: history) = rounds k history + 1 ∧
      (m ≠ .sent → failedRounds k (x :: history) = failedRounds k history + 1) := by
  refine ⟨?_, fun hm => ?_⟩
  · simp [rounds, endsRound, h, hk]
  · simp [failedRounds, endsFailedRound, h, hk, hm]

/-- A step that raises in a round of `k` ends a failed round of it. -/
theorem failedRounds_raised (history : History cfg) {event : OutboxEvent}
    (h : Session.raises cfg x.process x.before x.act = some event) (hk : event.eventId = k) :
    failedRounds k (x :: history) = failedRounds k history + 1 := by
  simp [failedRounds, endsFailedRound, raisesRound, h, hk]

end Counting

/-- What the history of such a run says about its state. -/
structure Accounts (n : Nat) (history : History cfg) (s : State cfg) : Prop where
  current : Current n s
  pending : ∀ k row, s.world.outbox.committed k = some row → row.status = .pending →
    row.attempts = rounds k history ∧ failedRounds k history = rounds k history ∧
      row.attempts < cfg.maxEventAttempts
  unknown : ∀ k, s.world.outbox.committed k = none →
    rounds k history = 0 ∧ failedRounds k history = 0
  bounded : ∀ k, (rounds k history : Int) ≤ cfg.maxEventAttempts
  calls : ∀ k, confirmCalls k history ≤ 3 * (rounds k history +
    if (worker s n).pc.answeredEvent.any fun e => e.eventId = k then 1 else 0)

namespace Accounts

variable {n : Nat} {history : History cfg} {s s' : State cfg}

theorem initial (hmax : 1 ≤ cfg.maxEventAttempts) (h : Initial s) : Accounts n [] s where
  current := .initial h
  pending k row hrow := by
    rw [h.world] at hrow
    cases hrow
  unknown _ _ := ⟨rfl, rfl⟩
  bounded _ := by
    simp only [rounds, List.countP_nil]
    omega
  calls _ := by simp [confirmCalls]

/-- The rounds of the event in hand. -/
theorem inHand (h : Accounts n history s) {e : OutboxEvent} (he : e ∈ (worker s n).hand) :
    e.attempts = rounds e.eventId history ∧
      failedRounds e.eventId history = rounds e.eventId history ∧
      e.attempts < cfg.maxEventAttempts :=
  have hrow := h.current.rows e he
  h.pending e.eventId e hrow.1 hrow.2

/-- A round makes its event pending only as a reschedule, which counts it. -/
theorem pending_next (hmax : 1 ≤ cfg.maxEventAttempts) (h : Accounts n history s) {i : Session}
    {a : i.Act} (hgood : soleWorker n i s.world (s.proc i) a) (hstep : s.step i a = some s')
    (k : UUID) (row : OutboxEvent) (hrow : s'.world.outbox.committed k = some row)
    (hpending : row.status = .pending) :
    row.attempts = rounds k (⟨i, s.world, s.proc i, a⟩ :: history) ∧
      failedRounds k (⟨i, s.world, s.proc i, a⟩ :: history) =
        rounds k (⟨i, s.world, s.proc i, a⟩ :: history) ∧
      row.attempts < cfg.maxEventAttempts := by
  have hrows := h.current.integrity.eventRows hstep
  by_cases hmarked : ∀ event m, Session.commits cfg i (s.proc i) a = some (event, m) →
      event.eventId ≠ k
  · obtain ⟨hrounds, hfailed⟩ :=
      rounds_other (x := ⟨i, s.world, s.proc i, a⟩) history (raises_eq_none hgood) hmarked
    rw [hrounds, hfailed]
    rcases hrows.other k hmarked with hsame | ⟨hnone, e, he, -, hattempts⟩
    · exact h.pending k row (hsame ▸ hrow) hpending
    · cases he.symm.trans hrow
      obtain ⟨hzero, hzero'⟩ := h.unknown k hnone
      rw [hzero, hzero', hattempts]
      exact ⟨rfl, rfl, by omega⟩
  · push Not at hmarked
    obtain ⟨event, m, hm, rfl⟩ := hmarked
    obtain ⟨-, hmark, hcommitted, -⟩ := h.current.commits hgood hm
    obtain ⟨row₀, at', hrow₀, hset⟩ := hrows.mark hm
    cases hcommitted.symm.trans hrow₀
    cases hset.symm.trans hrow
    obtain ⟨hrounds, hfailed⟩ :=
      rounds_marked (x := ⟨i, s.world, s.proc i, a⟩) history hm rfl
    have hevent : event ∈ (worker s n).hand := by
      simp [Processor.Worker.hand, Processor.WorkerPc.event_of_marked hmark]
    obtain ⟨hattempts, hsame, hless⟩ := h.inHand hevent
    cases m with
    | sent | failed => cases hpending
    | reschedule attempts =>
      obtain ⟨rfl, hmore⟩ := Processor.WorkerPc.marked_reschedule hmark
      rw [hrounds, hfailed (by simp), hsame]
      refine ⟨?_, rfl, hmore⟩
      simp only [OutboxRepository.setMark, hattempts]
      omega

theorem unknown_next (h : Accounts n history s) {i : Session} {a : i.Act}
    (hgood : soleWorker n i s.world (s.proc i) a) (hstep : s.step i a = some s') (k : UUID)
    (hnone : s'.world.outbox.committed k = none) :
    rounds k (⟨i, s.world, s.proc i, a⟩ :: history) = 0 ∧
      failedRounds k (⟨i, s.world, s.proc i, a⟩ :: history) = 0 := by
  have hrows := h.current.integrity.eventRows hstep
  have hmarked : ∀ event m, Session.commits cfg i (s.proc i) a = some (event, m) →
      event.eventId ≠ k := by
    rintro event m hm rfl
    obtain ⟨row, at', -, hset⟩ := hrows.mark hm
    cases hset.symm.trans hnone
  obtain ⟨hrounds, hfailed⟩ :=
    rounds_other (x := ⟨i, s.world, s.proc i, a⟩) history (raises_eq_none hgood) hmarked
  rw [hrounds, hfailed]
  rcases hrows.other k hmarked with hsame | ⟨hold, -⟩
  · exact h.unknown k (hsame ▸ hnone)
  · exact h.unknown k hold

theorem bounded_next (h : Accounts n history s) {i : Session} {a : i.Act}
    (hgood : soleWorker n i s.world (s.proc i) a) (k : UUID) :
    (rounds k (⟨i, s.world, s.proc i, a⟩ :: history) : Int) ≤ cfg.maxEventAttempts := by
  by_cases hmarked : ∀ event m, Session.commits cfg i (s.proc i) a = some (event, m) →
      event.eventId ≠ k
  · rw [(rounds_other (x := ⟨i, s.world, s.proc i, a⟩) history (raises_eq_none hgood) hmarked).1]
    exact h.bounded k
  · push Not at hmarked
    obtain ⟨event, m, hm, rfl⟩ := hmarked
    obtain ⟨-, hmark, -⟩ := h.current.commits hgood hm
    have hevent : event ∈ (worker s n).hand := by
      simp [Processor.Worker.hand, Processor.WorkerPc.event_of_marked hmark]
    obtain ⟨hattempts, -, hless⟩ := h.inHand hevent
    rw [(rounds_marked (x := ⟨i, s.world, s.proc i, a⟩) history hm rfl).1]
    omega

theorem calls_next (h : Accounts n history s) {i : Session} {a : i.Act}
    (hgood : soleWorker n i s.world (s.proc i) a) (hstep : s.step i a = some s') (k : UUID) :
    confirmCalls k (⟨i, s.world, s.proc i, a⟩ :: history) ≤
      3 * (rounds k (⟨i, s.world, s.proc i, a⟩ :: history) +
        if (worker s' n).pc.answeredEvent.any fun e => e.eventId = k then 1 else 0) := by
  have hcalls := h.calls k
  have hcons : confirmCalls k (⟨i, s.world, s.proc i, a⟩ :: history) =
      callsOfStep k i (s.proc i) a + confirmCalls k history := rfl
  rw [hcons]
  by_cases hi : i = .worker n
  · subst hi
    have hn := Processor.Worker.next_of_step (System.State.step_self hstep)
    obtain ⟨hsome, hnone⟩ := hn.confirmCalls hgood.2 k
    cases hm : Session.commits cfg (.worker n) (s.proc (.worker n)) a with
    | some mark =>
      obtain ⟨event, m⟩ := mark
      obtain ⟨hzero, hafter, hbefore⟩ := hsome event m hm
      have hstepCalls : callsOfStep k (.worker n) (s.proc (.worker n)) a = 0 := hzero
      have hafter : (worker s' n).pc.answeredEvent = none := hafter
      have hbefore : ∀ e, (worker s n).pc.answeredEvent = some e → e = event := hbefore
      rw [hstepCalls, hafter]
      by_cases hk : event.eventId = k
      · rw [(rounds_marked (x := ⟨.worker n, s.world, s.proc (.worker n), a⟩) history hm hk).1]
        split at hcalls <;> simp only [Option.any_none, Bool.false_eq_true, if_false] <;> omega
      · have hother : ∀ event' m', Session.commits cfg (.worker n) (s.proc (.worker n)) a =
            some (event', m') → event'.eventId ≠ k := by
          intro event' m' hm'
          cases hm.symm.trans hm'
          exact hk
        rw [(rounds_other (x := ⟨.worker n, s.world, s.proc (.worker n), a⟩) history
          (raises_eq_none hgood) hother).1]
        have hnot : (worker s n).pc.answeredEvent.any (fun e => e.eventId = k) = false := by
          cases he : (worker s n).pc.answeredEvent with
          | none => rfl
          | some e => simp [hbefore e he, hk]
        rw [hnot] at hcalls
        simpa using hcalls
    | none =>
      have hother : ∀ event m, Session.commits cfg (.worker n) (s.proc (.worker n)) a =
          some (event, m) → event.eventId ≠ k := by simp [hm]
      rw [(rounds_other (x := ⟨.worker n, s.world, s.proc (.worker n), a⟩) history
        (raises_eq_none hgood) hother).1]
      rcases hnone hm with ⟨hsame, hzero⟩ | ⟨event, hbefore, hafter, hstepCalls⟩
      · have hsame : (worker s' n).pc.answeredEvent = (worker s n).pc.answeredEvent := hsame
        have hzero : callsOfStep k (.worker n) (s.proc (.worker n)) a = 0 := hzero
        rw [hsame, hzero]
        omega
      · have hbefore : (worker s n).pc.answeredEvent = none := hbefore
        have hafter : (worker s' n).pc.answeredEvent = some event := hafter
        have hstepCalls : callsOfStep k (.worker n) (s.proc (.worker n)) a ≤
            if event.eventId = k then 3 else 0 := hstepCalls
        rw [hbefore] at hcalls
        rw [hafter]
        by_cases hk : event.eventId = k
        · simp only [hk, if_true, Option.any_none, Option.any_some, Bool.false_eq_true, if_false,
            decide_true] at hstepCalls hcalls ⊢
          omega
        · simp only [hk, if_false, Option.any_none, Option.any_some, Bool.false_eq_true,
            decide_false] at hstepCalls hcalls ⊢
          omega
  · have hquiet : callsOfStep k i (s.proc i) a = 0 := by
      cases i with
      | worker m => exact absurd (congrArg Session.worker hgood.1) hi
      | review | create | environment => rfl
    have hother : ∀ event m, Session.commits cfg i (s.proc i) a = some (event, m) →
        event.eventId ≠ k := fun event m hm => absurd (h.current.commits hgood hm).1 hi
    have hsame : worker s' n = worker s n := System.State.step_proc_ne hstep (Ne.symm hi)
    rw [(rounds_other (x := ⟨i, s.world, s.proc i, a⟩) history (raises_eq_none hgood) hother).1,
      hsame, hquiet]
    omega

theorem next (hmax : 1 ≤ cfg.maxEventAttempts) (h : Accounts n history s) {i : Session} {a : i.Act}
    (hgood : soleWorker n i s.world (s.proc i) a) (hstep : s.step i a = some s') :
    Accounts n (⟨i, s.world, s.proc i, a⟩ :: history) s' where
  current := h.current.next hgood hstep
  pending := h.pending_next hmax hgood hstep
  unknown := h.unknown_next hgood hstep
  bounded := h.bounded_next hgood
  calls := h.calls_next hgood hstep

/-- The calls made for an event, when its last round may still be open. -/
theorem confirmCalls_le (h : Accounts n history s) (k : UUID) :
    (confirmCalls k history : Int) ≤ 3 * cfg.maxEventAttempts := by
  have hcalls := h.calls k
  have hbounded := h.bounded k
  cases hanswered : (worker s n).pc.answeredEvent.any fun e => e.eventId = k with
  | false =>
    rw [hanswered] at hcalls
    simp only [Bool.false_eq_true, if_false] at hcalls
    omega
  | true =>
    obtain ⟨e, he, hk⟩ := (Option.any_eq_true _ _).1 hanswered
    have hk : e.eventId = k := of_decide_eq_true hk
    subst hk
    have hhand : e ∈ (worker s n).hand := by
      simp [Processor.Worker.hand, Processor.WorkerPc.event_of_answeredEvent he]
    obtain ⟨hattempts, -, hless⟩ := h.inHand hhand
    rw [hanswered] at hcalls
    simp only [if_true] at hcalls
    omega

end Accounts

theorem accounts_of_runs (hmax : 1 ≤ cfg.maxEventAttempts) {n : Nat} {s₀ s : State cfg}
    {history : History cfg} (hs : Initial s₀)
    (hrun : (payments cfg).Runs (soleWorker n).condition s₀ history s) : Accounts n history s :=
  hrun.invariant (I := fun history s => Accounts n history s)
    (fun hi hgood hstep => hi.next hmax hgood hstep) (.initial hmax hs)

/-- What bounds the retries of event `k` in a state with its history. -/
structure Bounded (n : Nat) (k : UUID) (history : History cfg) (s : State cfg) : Prop where
  /-- a pending event has failed as often as it says, and less often than it may -/
  accounted : ∀ row, s.world.outbox.committed k = some row → row.status = .pending →
    row.attempts = failedRounds k history ∧ row.attempts < cfg.maxEventAttempts
  rounds_le : (rounds k history : Int) ≤ cfg.maxEventAttempts
  /-- after the last round the event is no longer pending -/
  leaves : (rounds k history : Int) = cfg.maxEventAttempts →
    ∀ row, s.world.outbox.committed k = some row → row.status ≠ .pending
  /-- an event that is no longer pending stays so -/
  closed : ∀ row, s.world.outbox.committed k = some row → row.status ≠ .pending →
    ∀ s', (payments cfg).Reaches (commitsSucceed n) s s' →
      ∃ row', s'.world.outbox.committed k = some row' ∧ row'.status ≠ .pending
  calls_le : (confirmCalls k history : Int) ≤ 3 * cfg.maxEventAttempts

/-- In every run with one worker whose commits succeed, the retries of every event are bounded and
accounted for, if there may be at most 1025 attempts. -/
theorem retries_bounded (hmax : 1 ≤ cfg.maxEventAttempts)
    (hfits : cfg.maxEventAttempts ≤ floatMaxExp + 1) {n : Nat} {s₀ s : State cfg}
    {history : History cfg} (hs : Initial s₀)
    (hrun : (payments cfg).Runs (commitsSucceed n).condition s₀ history s) (k : UUID) :
    Bounded n k history s := by
  have hsole : (payments cfg).Runs (soleWorker n).condition s₀ history s :=
    (hrun.strengthen (I := fun _ => True)
      (fun _ hgood _ => ⟨soleWorker_of_commitsSucceed hfits hgood, trivial⟩) trivial).1
  have h := accounts_of_runs hmax hs hsole
  refine ⟨fun row hrow hpending => ?_, h.bounded k, fun hall row hrow hpending => ?_,
    fun row hrow hclosed s' hlater => h.current.integrity.closed hlater hrow hclosed,
    h.confirmCalls_le k⟩
  · obtain ⟨hattempts, hfailed, hless⟩ := h.pending k row hrow hpending
    rw [hfailed]
    exact ⟨hattempts, hless⟩
  · obtain ⟨hattempts, -, hless⟩ := h.pending k row hrow hpending
    omega

set_option maxRecDepth 10000 in
/-- After a round in which the provider has timed out three times. -/
theorem retries_bounded_timeout : ∃ history s,
    (payments sampleSettings).Runs (commitsSucceed 0).condition sample history s ∧
      Bounded 0 10 history s ∧
      failedRounds 10 history = 1 := by
  have hrun : (System.State.run (commitsSucceed 0) (creation 0 ⟨0, .allow, .allow⟩ 1 10 ++
      [⟨.worker 0, Processor.WorkerAction.fetchPendingRequested 0 [sampleRequest]⟩] ++
      callProvider 0 .timeout ++ settle 0 20 0) sample).map
        (fun s => (s.world.outbox.committed 10).map fun row => (row.status, row.attempts)) =
      some (some (.pending, 1)) := by
    decide
  obtain ⟨s, hs, heq⟩ := Option.map_eq_some_iff.1 hrun
  obtain ⟨row, hrow, hcolumns⟩ := Option.map_eq_some_iff.1 heq
  obtain ⟨hstatus, hattempts⟩ := Prod.mk.inj hcolumns
  obtain ⟨history, hruns⟩ := System.Runs.exists_of_reaches (System.Reaches.of_run hs)
  have h := retries_bounded (by decide) (by decide) (fresh_initial _ _ _) hruns 10
  refine ⟨history, s, hruns, h, ?_⟩
  have hfailed := (h.accounted row hrow hstatus).1
  omega

/-! ## A backoff that overflows -/

/-- One attempt more than the backoff has values for. -/
def patientSettings : Processor.Settings where
  batchSize := 50
  maxEventAttempts := 1026
  eventPublisherEnabled := true
  synchronizeSession := true

def patientSample : State patientSettings :=
  fresh patientSettings (fun _ => ⟨.approve, 1, "review", none, .start⟩)
    fun _ => ⟨⟨"m", "c", "a", "k"⟩, ⟨⟨10000, -2⟩, "BRL", .pix, none⟩, "trace", none, .start⟩

/-- The event of a payment in review, after `attempts` rounds. -/
def attempted (attempts : Nat) (nextAttemptAt : Instant) : OutboxEvent :=
  { OutboxEvent.new 10 1 .paymentReviewRequired
      (.paymentReviewRequired 1 "m" ReviewReason.riskOrAmlReview.value) 0 with
    attempts := attempts
    nextAttemptAt := nextAttemptAt }

/-- The outbox holds the event alone, after `attempts` rounds. -/
structure Holds (attempts : Nat) (nextAttemptAt : Instant)
    (outbox : RowStore Session UUID OutboxEvent) : Prop where
  keys : outbox.keys = [10]
  cell : outbox.cell 10 = ⟨some (attempted attempts nextAttemptAt), none⟩

theorem Holds.committed {attempts : Nat} {nextAttemptAt : Instant}
    {outbox : RowStore Session UUID OutboxEvent} (h : Holds attempts nextAttemptAt outbox) :
    outbox.committed 10 = some (attempted attempts nextAttemptAt) := by
  rw [RowStore.committed, h.cell]

theorem Holds.rows {attempts : Nat} {nextAttemptAt : Instant}
    {outbox : RowStore Session UUID OutboxEvent} (h : Holds attempts nextAttemptAt outbox) :
    outbox.rows = [attempted attempts nextAttemptAt] := by
  unfold RowStore.rows
  rw [h.keys, List.filterMap_cons_some h.committed, List.filterMap_nil]

/-- A step of worker 0 as a step of the system. -/
theorem exists_step {s : State cfg} {a : Processor.WorkerAction} {w : World} {l : Processor.Worker}
    (ha : a.isCrash = false)
    (h : Processor.Worker.step cfg (.worker 0) s.world (worker s 0) a = some (w, l)) :
    ∃ s', (payments cfg).Reaches (soleWorker 0) s s' ∧ s'.world = w ∧ worker s' 0 = l := by
  have hstep : s.step (.worker 0) a = some ⟨w, Function.update s.proc (.worker 0) l⟩ :=
    System.State.step_eq_some.2 ⟨w, l, h, rfl⟩
  have hsole : @soleWorker cfg 0 (.worker 0) s.world (s.proc (.worker 0)) a := ⟨rfl, ha⟩
  refine ⟨_, .step .refl hsole hstep, rfl, ?_⟩
  exact Function.update_self (Session.worker 0) l s.proc

/-- A worker fetches the event, and the publisher fails. -/
theorem publish_fails {s : State patientSettings} {attempts : Nat} {nextAttemptAt : Instant}
    (h : Holds attempts nextAttemptAt s.world.outbox) (hidle : (worker s 0).pc = .idle) :
    ∃ s', (payments patientSettings).Reaches (soleWorker 0) s s' ∧
      s'.world.outbox = s.world.outbox ∧
      (worker s' 0).pc = .published (attempted attempts nextAttemptAt) false ∧
      (worker s' 0).events = [] := by
  have hrequested : OutboxRepository.Ordered s.world
      (OutboxRepository.dueRequested nextAttemptAt) [] := by
    refine ⟨?_, .nil⟩
    rw [h.rows]
    exact .refl []
  have hfanout : OutboxRepository.Ordered s.world (OutboxRepository.dueFanout nextAttemptAt)
      [attempted attempts nextAttemptAt] := by
    have hdue :
        OutboxRepository.dueFanout nextAttemptAt (attempted attempts nextAttemptAt) = true :=
      decide_eq_true ⟨by simp [attempted], rfl, Int.le_refl _⟩
    refine ⟨?_, List.pairwise_singleton _ _⟩
    rw [h.rows, List.filter_cons_of_pos hdue]
    exact .refl _
  have hfetch : Processor.Worker.step patientSettings (.worker 0) s.world (worker s 0)
      (.fetchPendingRequested nextAttemptAt []) =
        some (s.world, { worker s 0 with events := [], pc := .requested }) := by
    simp only [Processor.Worker.step, hidle, if_pos hrequested, List.take_nil]
  obtain ⟨s₁, hrun₁, hworld₁, hworker₁⟩ := exists_step rfl hfetch
  have hfetchFanout : Processor.Worker.step patientSettings (.worker 0) s₁.world (worker s₁ 0)
      (.fetchPendingFanout nextAttemptAt [attempted attempts nextAttemptAt]) =
        some (s₁.world, { worker s₁ 0 with
          events := [attempted attempts nextAttemptAt], pc := .fanout }) := by
    rw [hworld₁, hworker₁]
    exact if_pos ⟨rfl, rfl, hfanout⟩
  obtain ⟨s₂, hrun₂, hworld₂, hworker₂⟩ := exists_step rfl hfetchFanout
  have hpublish : Processor.Worker.step patientSettings (.worker 0) s₂.world (worker s₂ 0)
      (.publish false) = some ({ s₂.world with published := s₂.world.published },
        { worker s₂ 0 with
          events := [], pc := .published (attempted attempts nextAttemptAt) false }) := by
    rw [hworker₂]
    rfl
  obtain ⟨s₃, hrun₃, hworld₃, hworker₃⟩ := exists_step rfl hpublish
  refine ⟨s₃, (hrun₁.trans hrun₂).trans hrun₃, ?_, ?_, ?_⟩
  · rw [hworld₃, hworld₂, hworld₁]
  · rw [hworker₃]
  · rw [hworker₃]

/-- The mark of a round that has failed. -/
theorem markEvent_attempted {w : World} {attempts : Nat} (hattempts : attempts < floatMaxExp)
    {nextAttemptAt : Instant} (h : Holds attempts nextAttemptAt w.outbox) (t : Session)
    (now : Instant) : ∃ nextAttemptAt',
      Processor.markEvent w t (attempted attempts nextAttemptAt)
        (Processor.fanoutMark patientSettings (attempted attempts nextAttemptAt) false) now 0 =
      some { w with outbox := w.outbox.put t 10 (attempted (attempts + 1) nextAttemptAt') } := by
  have hexp : floatMaxExp = 1024 := rfl
  have hmark : Processor.fanoutMark patientSettings (attempted attempts nextAttemptAt) false =
      .reschedule (attempts + 1) := by
    refine if_neg (?_ : ¬ (1026 : Int) ≤ (attempts : Int) + 1)
    omega
  have hdraw : Processor.EventMark.DrawOk 0 (.reschedule (attempts + 1)) := by
    refine ⟨(?_ : ¬ floatMaxExp ≤ ((attempts : Int) + 1).toNat - 1), ?_⟩
    · omega
    · have hpower : (0 : Int) ≤ 500000 * 2 ^ ((attempts : Int) + 1 - 1).toNat :=
        Int.mul_nonneg (by decide) (Int.le_of_lt (Int.pow_pos (by decide)))
      exact Int.le_min.2 ⟨by decide, hpower⟩
  have hfree : w.outbox.Free t 10 := by
    intro p hp
    rw [h.cell] at hp
    cases hp
  have hview : w.outbox.view t 10 = some (attempted attempts nextAttemptAt) := by
    simp only [RowStore.view, RowStore.writes, RowStore.committed, h.cell, Option.none_or]
  refine ⟨Processor.EventMark.nextAttemptAt now 0 (.reschedule (attempts + 1)), ?_⟩
  rw [hmark, Processor.markEvent, if_pos hdraw]
  change (w.outbox.update t 10 _ _).map _ = _
  rw [RowStore.update, if_pos hfree, hview]
  rfl

/-- A round that fails, while the backoff has a value. -/
theorem round_fails {s : State patientSettings} {attempts : Nat}
    (hattempts : attempts < floatMaxExp) {nextAttemptAt : Instant}
    (h : Holds attempts nextAttemptAt s.world.outbox)
    (hidle : (worker s 0).pc = .idle) :
    ∃ s' nextAttemptAt', (payments patientSettings).Reaches (soleWorker 0) s s' ∧
      Holds (attempts + 1) nextAttemptAt' s'.world.outbox ∧ (worker s' 0).pc = .idle := by
  obtain ⟨s₁, hrun₁, houtbox, hpc, hevents⟩ := publish_fails h hidle
  rw [← houtbox] at h
  obtain ⟨nextAttemptAt', hmarked⟩ := markEvent_attempted hattempts h (.worker 0) 0
  have hmark : Processor.Worker.step patientSettings (.worker 0) s₁.world (worker s₁ 0)
      (.markFanout 0 0) = some
        ({ s₁.world with
            outbox :=
              s₁.world.outbox.put (.worker 0) 10 (attempted (attempts + 1) nextAttemptAt') },
          { worker s₁ 0 with
            pc := .committingFanout (attempted attempts nextAttemptAt) false }) := by
    simp only [Processor.Worker.step, hpc, hmarked, Option.map_some]
  obtain ⟨s₂, hrun₂, hworld₂, hworker₂⟩ := exists_step rfl hmark
  have hcommit : Processor.Worker.step patientSettings (.worker 0) s₂.world (worker s₂ 0) .commit =
      some (s₂.world.commit (.worker 0), { worker s₂ 0 with pc := .fanout }) := by
    rw [hworker₂]
    rfl
  obtain ⟨s₃, hrun₃, hworld₃, hworker₃⟩ := exists_step rfl hcommit
  have hend : Processor.Worker.step patientSettings (.worker 0) s₃.world (worker s₃ 0) .endRun =
      some (s₃.world, { worker s₃ 0 with pc := .idle }) := by
    rw [hworker₃, hworker₂]
    exact if_pos hevents
  obtain ⟨s₄, hrun₄, hworld₄, hworker₄⟩ := exists_step rfl hend
  refine ⟨s₄, nextAttemptAt', ((hrun₁.trans hrun₂).trans hrun₃).trans hrun₄, ⟨?_, ?_⟩, ?_⟩
  · rw [hworld₄, hworld₃, hworld₂]
    simp [World.commit, RowStore.commit, RowStore.finish, RowStore.put, h.keys]
  · rw [hworld₄, hworld₃, hworld₂]
    simp [World.commit, RowStore.commit, RowStore.finish, RowStore.put]
  · rw [hworker₄]

/-- Whether the place is between two calls of `run_once`. -/
def betweenCalls : Processor.WorkerPc → Bool
  | .idle => true
  | _ => false

theorem eq_idle_of_betweenCalls {pc : Processor.WorkerPc} (h : betweenCalls pc = true) :
    pc = .idle := by
  cases pc with
  | idle => rfl
  | _ => cases h

/-- Round by round the event gets up to 1024 attempts. -/
theorem rounds_fail (attempts : Nat) (hattempts : attempts ≤ floatMaxExp) :
    ∃ s nextAttemptAt, (payments patientSettings).Reaches (soleWorker 0) patientSample s ∧
      Holds attempts nextAttemptAt s.world.outbox ∧ (worker s 0).pc = .idle := by
  induction attempts with
  | zero =>
    have hrun : (System.State.run (soleWorker 0) (creation 0 ⟨0, .review, .allow⟩ 1 10)
        patientSample).map (fun s =>
          (s.world.outbox.keys, s.world.outbox.cell 10, betweenCalls (worker s 0).pc)) =
        some ([10], ⟨some (attempted 0 0), none⟩, true) := by
      decide
    obtain ⟨s, hs, heq⟩ := Option.map_eq_some_iff.1 hrun
    simp only [Prod.mk.injEq] at heq
    obtain ⟨hkeys, hcell, hidle⟩ := heq
    exact ⟨s, 0, System.Reaches.of_run hs, ⟨hkeys, hcell⟩, eq_idle_of_betweenCalls hidle⟩
  | succ attempts ih =>
    obtain ⟨s, nextAttemptAt, hrun, hholds, hidle⟩ := ih (by omega)
    obtain ⟨s', nextAttemptAt', hround, hholds', hidle'⟩ := round_fails hattempts hholds hidle
    exact ⟨s', nextAttemptAt', hrun.trans hround, hholds', hidle'⟩

/-- The 1025th round raises: it has failed, and the event does not count it. -/
theorem retries_uncounted : ¬ ∀ (cfg : Processor.Settings) (n : Nat) (s₀ s : State cfg)
    (history : History cfg) (k : UUID), 1 ≤ cfg.maxEventAttempts → Initial s₀ →
    (payments cfg).Runs (commitsSucceed n).condition s₀ history s → Bounded n k history s := by
  intro hbounded
  obtain ⟨s, nextAttemptAt, hrun, hholds, hidle⟩ := rounds_fail floatMaxExp le_rfl
  obtain ⟨s₁, hrun₁, houtbox, hpc, -⟩ := publish_fails hholds hidle
  rw [← houtbox] at hholds
  obtain ⟨history, hsole⟩ := System.Runs.exists_of_reaches (hrun.trans hrun₁)
  -- up to here every failed round is counted
  obtain ⟨hattempts, hfailed, -⟩ :=
    (accounts_of_runs (by decide) (fresh_initial _ _ _) hsole).pending 10 _ hholds.committed rfl
  have hruns :
      (payments patientSettings).Runs (commitsSucceed 0).condition patientSample history s₁ :=
    (hsole.strengthen (I := fun _ => True)
      (fun _ hgood _ => ⟨commitsSucceed_of_soleWorker hgood, trivial⟩) trivial).1
  -- the handler of the failed publication raises, and the session is closed
  have hraises : Processor.WorkerPc.overflowing patientSettings (worker s₁ 0).pc =
      some (attempted floatMaxExp nextAttemptAt) := by
    rw [hpc]
    rfl
  have hcrash : Processor.Worker.step patientSettings (.worker 0) s₁.world (worker s₁ 0) .crash =
      some (s₁.world.rollback (.worker 0), { worker s₁ 0 with events := [], pc := .idle }) := by
    simp only [Processor.Worker.step, hpc]
  have hgood : @commitsSucceed patientSettings 0 (.worker 0) s₁.world (s₁.proc (.worker 0))
      Processor.WorkerAction.crash := ⟨rfl, fun _ => congrArg Option.isSome hraises⟩
  have hlast := System.Runs.step hruns hgood (System.State.step_eq_some.2 ⟨_, _, hcrash, rfl⟩)
  have hbound := hbounded _ 0 _ _ _ 10 (by decide) (fresh_initial _ _ _) hlast
  have hrow : (s₁.world.rollback (.worker 0)).outbox.committed 10 =
      some (attempted floatMaxExp nextAttemptAt) := by
    rw [World.rollback, RowStore.committed_rollback, hholds.committed]
  have hcount := (hbound.accounted _ hrow rfl).1
  have hraised : failedRounds 10 (⟨.worker 0, s₁.world, s₁.proc (.worker 0),
      Processor.WorkerAction.crash⟩ :: history) = failedRounds 10 history + 1 :=
    failedRounds_raised history hraises rfl
  rw [hraised, hfailed] at hcount
  omega

end Payments

end PaymentsLab
