import PaymentsLab.System.Landing

/-!
# No request is closed too early

A requested event may be marked `SENT` only when its payment is finished, and a payment in
processing must still have a pending request. A worker that loses the optimistic lock marks the
event `SENT` without looking at how the winner ended. That is right as long as the winner has
finished the payment (`Worker.losesToFinished`), and a reschedule must find its event still pending
(`Worker.reschedulesPending`).
-/

namespace PaymentsLab

open Foundation

namespace Ledger

/-- The requests and the payments they ask for. -/
structure Work (L : Ledger) : Prop where
  sent : ∀ {p k}, L.IsRequest p k → L.delivery k = some .sent →
    ∃ s, L.status p = some s ∧ s.Terminal
  processing : ∀ {p}, L.status p = some .processing →
    ∃ k, L.IsRequest p k ∧ L.delivery k = some .pending
  closed : ∀ {p k s}, L.status p = some s → s.Terminal → L.IsRequest p k →
    L.delivery k ≠ some .pending

/-- A move that closes and reopens requests as it should. -/
def KeepsWork (L : Ledger) : Move → Prop
  | .lose k => ∀ p, L.IsRequest p k → ∃ s, L.status p = some s ∧ s.Terminal
  | .retry _ k => L.delivery k = some .pending
  | .approve p _ => L.status p = some .inReview
  | .reject p => L.status p = some .inReview
  | _ => True

namespace Work

variable {L : Ledger} {m : Move} {p k : UUID}

/-- A finished payment stays finished. -/
theorem terminal_apply (h : L.Work) (ha : L.Admissible m) (hm : L.KeepsWork m)
    (hp : ∃ s, L.status p = some s ∧ s.Terminal) :
    ∃ s, (L.apply m).status p = some s ∧ s.Terminal := by
  obtain ⟨s, hs, hterminal⟩ := hp
  rcases L.status_apply m p with ⟨hsame, -⟩ | ⟨s', hassigned, hnew⟩
  · exact ⟨s, hsame.trans hs, hterminal⟩
  · refine ⟨s', hnew, ?_⟩
    cases m with
    | retry =>
      cases hassigned
      exact absurd hm (h.closed hs hterminal ha)
    | settle =>
      cases hassigned
      exact Outcome.terminal_status _
    | approve | reject =>
      cases hassigned
      cases hm.symm.trans hs
      exact absurd hterminal (by decide)
    | create | createWith =>
      cases hassigned
      cases ha.1.symm.trans hs
    | _ => cases hassigned

/-- The requests a move marks: a lost one, or the one it settles. -/
theorem marked_request (ha : L.Admissible m) (hk : L.IsRequest p k) {d : OutboxStatus}
    (hd : m.marked = some (k, d)) :
    m = .lose k ∧ d = .sent ∨ ∃ o e, m = .settle p k o d e ∧ d ≠ .pending := by
  cases m with
  | fanOut =>
    cases hd
    exact absurd hk (ha p)
  | lose =>
    cases hd
    exact .inl ⟨rfl, rfl⟩
  | settle p' k' o d' e =>
    cases hd
    cases ha.1.symm.trans hk
    exact .inr ⟨o, e, rfl, ha.2.1⟩
  | _ => cases hd

/-- A payment is put into processing by a retry. -/
theorem assigned_processing (ha : L.Admissible m) (hm : m.assigned = some (p, .processing)) :
    ∃ k, m = .retry p k := by
  cases m with
  | retry p' k =>
    cases hm
    exact ⟨k, rfl⟩
  | settle p' k' o d e => cases o <;> cases hm
  | create p' s =>
    cases hm
    cases ha.2.2
  | createWith p' s k' type =>
    cases hm
    rcases ha.2.2.2 with ⟨h, -⟩ | ⟨h, -⟩ <;> cases h
  | _ => cases hm

/-- A payment is finished by the settlement of a request. -/
theorem assigned_terminal (ha : L.Admissible m) {s : PaymentStatus}
    (hm : m.assigned = some (p, s)) (hs : s.Terminal) : ∃ k o d e, m = .settle p k o d e := by
  cases m with
  | settle p' k' o d e =>
    cases hm
    exact ⟨k', o, d, e, rfl⟩
  | retry | approve | reject =>
    cases hm
    exact absurd hs (by decide)
  | create p' s' =>
    cases hm
    rw [ha.2.2] at hs
    exact absurd hs (by decide)
  | createWith p' s' k' type =>
    cases hm
    rcases ha.2.2.2 with ⟨rfl, -⟩ | ⟨rfl, -⟩ <;> exact absurd hs (by decide)
  | _ => cases hm

theorem apply (h : L.Work) (hunique : L.RequestsUnique) (ha : L.Admissible m)
    (hm : L.KeepsWork m) : (L.apply m).Work where
  sent {p k} hk hd := by
    rcases isRequest_apply hk with ⟨hold, hadd⟩ | rfl | ⟨s, rfl⟩
    · rcases delivery_apply hadd with ⟨hsame, -⟩ | ⟨d, hmarked, hnew⟩
      · exact h.terminal_apply ha hm (h.sent hold (hsame ▸ hd))
      · rcases marked_request ha hold hmarked with ⟨rfl, -⟩ | ⟨o, e, rfl, -⟩
        · exact h.terminal_apply ha hm (hm p hold)
        · exact ⟨o.status, by simp [Ledger.apply, Move.assigned, overlay], o.terminal_status⟩
    · cases (delivery_added rfl).symm.trans hd
    · cases (delivery_added rfl).symm.trans hd
  processing {p} hp := by
    rcases L.status_apply m p with ⟨hsame, hnone⟩ | ⟨s, hassigned, hnew⟩
    · obtain ⟨k, hk, hd⟩ := h.processing (hsame ▸ hp)
      refine ⟨k, ha.kind_kept hk, ?_⟩
      have hadd (e : UUID × EventType) (he : m.added = some (k, e)) : False := by
        cases (ha.kind_added he).symm.trans hk
      rcases delivery_apply hadd with ⟨hdelivery, -⟩ | ⟨d, hmarked, -⟩
      · rw [hdelivery, hd]
      · rcases marked_request ha hk hmarked with ⟨rfl, -⟩ | ⟨o, e, rfl, -⟩
        · obtain ⟨s, hs, hterminal⟩ := hm p hk
          cases (hsame ▸ hp).symm.trans hs
          exact absurd hterminal (by decide)
        · exact absurd rfl (hnone o.status)
    · cases hnew.symm.trans hp
      obtain ⟨k, rfl⟩ := assigned_processing ha hassigned
      exact ⟨k, ha, hm⟩
  closed {p k s} hs hterminal hk := by
    rcases isRequest_apply hk with ⟨hold, hadd⟩ | rfl | ⟨s', rfl⟩
    · rcases L.status_apply m p with ⟨hsame, -⟩ | ⟨s', hassigned, hnew⟩
      · rcases delivery_apply hadd with ⟨hdelivery, -⟩ | ⟨d, hmarked, hdelivery⟩
        · rw [hdelivery]
          exact h.closed (hsame ▸ hs) hterminal hold
        · rw [hdelivery]
          rcases marked_request ha hold hmarked with ⟨-, rfl⟩ | ⟨o, e, -, hne⟩
          · simp
          · simpa using hne
      · cases hnew.symm.trans hs
        obtain ⟨k', o, d, e, rfl⟩ := assigned_terminal ha hassigned hterminal
        cases hunique hold ha.1
        rcases delivery_apply hadd with ⟨-, hnone⟩ | ⟨d', hmarked, hdelivery⟩
        · exact absurd rfl (hnone d)
        · cases hmarked
          rw [hdelivery]
          simpa using ha.2.1
    · have hreceived : (L.apply (.approve p k)).status p = some .received := by
        simp [Ledger.apply, Move.assigned, overlay]
      cases hreceived.symm.trans hs
      exact absurd hterminal (by decide)
    · have hcreated : (L.apply (.createWith p s' k .paymentRequested)).status p = some s' := by
        simp [Ledger.apply, Move.assigned, overlay]
      cases hcreated.symm.trans hs
      rcases ha.2.2.2 with ⟨rfl, -⟩ | ⟨-, hne⟩
      · exact absurd hterminal (by decide)
      · cases hne

end Work

end Ledger

namespace Processor

/-- If this step is a `mark_processing` that finds another version, the payment is finished. -/
def Worker.losesToFinished (w : World) (l : Worker) (a : WorkerAction) : Prop :=
  a.isMarkProcessing = true → ∀ payment ∈ l.pc.target,
    ∀ row ∈ w.payments.committed payment.paymentId, row.version ≠ payment.version →
      row.status.Terminal

instance Worker.decidableLosesToFinished (w : World) (l : Worker) (a : WorkerAction) :
    Decidable (l.losesToFinished w a) :=
  inferInstanceAs (Decidable (_ → _))

/-- The event the worker is about to reschedule. -/
def WorkerPc.rescheduled (cfg : Settings) : WorkerPc → Option OutboxEvent
  | .finalized event payment outcome =>
    if (settlement cfg event payment outcome).finalization.isNone then some event else none
  | _ => none

def WorkerAction.isMarkEvent : WorkerAction → Bool
  | .markEvent _ _ => true
  | _ => false

/-- If this step is a reschedule, its event is still pending. -/
def Worker.reschedulesPending (cfg : Settings) (w : World) (l : Worker) (a : WorkerAction) : Prop :=
  a.isMarkEvent = true → ∀ event ∈ l.pc.rescheduled cfg,
    ∀ row ∈ w.outbox.committed event.eventId, row.status = .pending

instance Worker.decidableReschedulesPending (cfg : Settings) (w : World) (l : Worker)
    (a : WorkerAction) : Decidable (l.reschedulesPending cfg w a) :=
  inferInstanceAs (Decidable (_ → _))

/-- A worker that is about to commit a reschedule. -/
def WorkerPc.rescheduling (cfg : Settings) : WorkerPc → Option OutboxEvent
  | .committing event (.settled payment outcome) =>
    if (settlement cfg event payment outcome).finalization.isNone then some event else none
  | _ => none

/-- What a worker may assume about the event it is about to close or to reschedule. -/
structure Worker.Careful (cfg : Settings) (w : World) (l : Worker) : Prop where
  lost : ∀ event, l.pc.lostEvent = some event →
    ∃ s, w.status event.aggregateId = some s ∧ s.Terminal
  rescheduled : ∀ event, l.pc.rescheduling cfg = some event →
    w.ledger.delivery event.eventId = some .pending

namespace Worker.Careful

variable {cfg : Settings} {w w' : World} {t : Session} {l l' : Worker} {a : WorkerAction}

/-- No other session can change the delivery status of an event whose row is held. -/
theorem stable (h : Careful cfg w l) (hinv : Worker.Inv cfg w t l) (hr : w.Rely t w')
    (hterminal : ∀ p, (∃ s, w.status p = some s ∧ s.Terminal) →
      ∃ s, w'.status p = some s ∧ s.Terminal) : Careful cfg w' l where
  lost event hevent := hterminal _ (h.lost event hevent)
  rescheduled event hevent := by
    rw [← h.rescheduled event hevent]
    have hmarked : ∃ m, l.pc.marked cfg = some (event, m) := by
      unfold WorkerPc.rescheduling at hevent
      split at hevent
      · next hpc =>
        split at hevent
        · cases hevent
          exact ⟨_, by rw [hpc]; rfl⟩
        · cases hevent
      · cases hevent
    obtain ⟨m, hm⟩ := hmarked
    obtain ⟨added, -, -, hev⟩ := hinv.events
    rw [hm] at hev
    obtain ⟨row, at', -, hwrites⟩ := hev
    simp only [World.ledger]
    rw [hr.outbox.held (by rw [hwrites, Function.update_self]; rfl)]

/-- A step of the worker itself. -/
theorem next (h : Careful cfg w l) (hw : w.WF) (hinv : Worker.Inv cfg w t l)
    (hn : Next cfg t w l a w' l') (hlose : l.losesToFinished w a)
    (hreschedule : l.reschedulesPending cfg w a) : Careful cfg w' l' := by
  have quiet : a ≠ .commit → w'.ledger = w.ledger := hinv.ledger_eq hn
  cases hn with
  | fetched | found | notFound | markedMissing | locked | called | finalized | unfinalized
  | committed | fetchedFanout | published | markedFanout | committedFanout | ended | crashed =>
    exact ⟨fun e he => (by cases he), fun e he => (by cases he)⟩
  | @missed event payment pc stale =>
    refine ⟨fun e he => ?_, fun e he => (by cases he)⟩
    cases he
    have hclean := hinv.clean (by rw [pc]; rfl) (by rw [pc]; rfl) (by rw [pc]; rfl)
    have hknown := hw.payment_of_hasEvent (hinv.known event (.inr (by rw [pc]; rfl)))
    rw [← hinv.payment event payment (by rw [pc]; rfl) (by rw [pc]; rfl)] at hknown ⊢
    obtain ⟨row, hrow⟩ := Option.isSome_iff_exists.1 hknown
    have hview : w.payments.view t payment.paymentId = some row := by
      rw [RowStore.view_of_committed (by rw [hclean.payments]), hrow]
    have hversion := (stale row hview (by simp [hrow])).2
    refine ⟨row.status, by simp [World.status, hrow], ?_⟩
    exact hlose rfl payment (by rw [pc]; rfl) row hrow hversion
  | @markedLost now event w' pc mark =>
    refine ⟨fun e he => ?_, fun e he => (by cases he)⟩
    cases he
    rw [show w'.status = w.status from congrArg Ledger.status (quiet (by simp))]
    exact h.lost event (by rw [pc]; rfl)
  | @marked event payment outcome now draw w' pc mark =>
    refine ⟨fun e he => (by cases he), fun e he => ?_⟩
    rw [quiet (by simp)]
    have hevent : e ∈ l.pc.rescheduled cfg := by
      rw [pc]
      exact he
    have hsame : e = event := by
      simp only [WorkerPc.rescheduling] at he
      split at he <;> cases he
      rfl
    subst hsame
    obtain ⟨row, hrow, -⟩ := hinv.known e (.inr (by rw [pc]; rfl))
    simp [World.ledger, hrow, hreschedule rfl e hevent row hrow]

end Worker.Careful

end Processor

namespace Payments

variable {cfg : Processor.Settings}

/-- Runs in which reviews are atomic, a worker loses the lock to a finished payment only, and a
reschedule finds its event pending. -/
def closesCarefully : (payments cfg).Guard
  | .worker _, w, l, a =>
    Processor.Worker.losesToFinished w l a ∧ Processor.Worker.reschedulesPending cfg w l a
  | .review _, _, _, a => Review.Action.Atomic a
  | _, _, _, _ => True

instance : (i : Session) → (w : World) → (l : (payments cfg).Local i) →
    (a : (payments cfg).Act i) → Decidable (@closesCarefully cfg i w l a)
  | .worker _, w, l, a => @instDecidableAnd _ _ (Processor.Worker.decidableLosesToFinished w l a)
      (Processor.Worker.decidableReschedulesPending cfg w l a)
  | .review _, _, _, a => Review.Action.decidableAtomic a
  | .create _, _, _, _ => inferInstanceAs (Decidable True)
  | .environment, _, _, _ => inferInstanceAs (Decidable True)

/-- What such a run maintains. -/
structure WorkHolds (s : State cfg) : Prop where
  landed : Landed (fun _ => True) (fun _ s => s = .inReview) s
  active : s.world.ledger.RequestsActive
  unique : s.world.ledger.RequestsUnique
  work : s.world.ledger.Work
  careful : ∀ n, Processor.Worker.Careful cfg s.world (worker s n)

namespace WorkHolds

variable {s s' : State cfg}

theorem initial (h : Initial s) : WorkHolds s where
  landed := .initial h
  active := by
    rw [h.world]
    intro p k hk
    cases hk
  unique := by
    rw [h.world]
    intro p k k' hk
    cases hk
  work := by
    rw [h.world]
    constructor <;> simp [World.ledger, World.empty, World.status, Ledger.IsRequest]
  careful n := by
    have hpc : (worker s n).pc = .idle := h.worker n
    constructor <;> simp [hpc, Processor.WorkerPc.lostEvent, Processor.WorkerPc.rescheduling]

/-- The moves of a careful run close and reopen requests as they should. -/
theorem keepsWork (h : WorkHolds s) {i : Session} {a : i.Act} {m : Ledger.Move}
    (hm : Session.Moves cfg s.world i (s.proc i) a m) (hadm : s.world.ledger.Admissible m)
    (hlands : MoveLands (fun _ => True) (fun _ s => s = .inReview) s.world.ledger m) :
    s.world.ledger.KeepsWork m := by
  cases i with
  | worker n =>
    have hinv : Processor.Worker.Inv cfg s.world (.worker n) (worker s n) :=
      h.landed.integrity.inv (.worker n)
    have hcareful := h.careful n
    cases hm with
    | skip | settle | fanOut => trivial
    | @lose event pc =>
      replace pc : (worker s n).pc = .committing event .lost := pc
      intro p hp
      have hrequest := hinv.isRequest (by rw [pc]; rfl) (.inr (by rw [pc]; rfl))
      cases hrequest.symm.trans hp
      exact hcareful.lost event (by rw [pc]; rfl)
    | @retry event payment outcome attempts pc settle =>
      replace pc : (worker s n).pc = .committing event (.settled payment outcome) := pc
      exact hcareful.rescheduled event (by simp [pc, Processor.WorkerPc.rescheduling, settle])
  | review n =>
    cases hm with
    | skip => trivial
    | approve =>
      obtain ⟨st, hst⟩ := Option.isSome_iff_exists.1 hadm.1
      cases hlands st hst
      exact hst
    | reject =>
      obtain ⟨st, hst⟩ := Option.isSome_iff_exists.1 hadm
      cases hlands st hst
      exact hst
  | create n =>
    cases hm with
    | skip | create | createWith => trivial
  | environment =>
    cases hm
    trivial

theorem next (h : WorkHolds s) {i : Session} {a : i.Act}
    (hguard : closesCarefully i s.world (s.proc i) a) (hstep : s.step i a = some s') :
    WorkHolds s' := by
  have hatomic : @landingAtomic cfg (fun _ => True) i s.world (s.proc i) a := by
    cases i with
    | worker n => exact fun _ _ _ _ _ _ => trivial
    | review n => exact hguard
    | create n => trivial
    | environment => trivial
  obtain ⟨hlanded, m, hm, hadm, hlands, hledger⟩ :=
    h.landed.next (fun _ => rfl) (landing_of_atomic hatomic) hstep
  have hkeeps := h.keepsWork hm hadm hlands
  have hreview {p : UUID} (hm : s.world.ledger.status p = some .inReview) :
      ∀ k, ¬ s.world.ledger.IsRequest p k :=
    fun k => h.active.not_isRequest hm (by decide)
  refine ⟨hlanded, ?_, ?_, ?_, fun n => ?_⟩
  · rw [hledger]
    refine h.active.apply hadm fun p st hreject hst => ?_
    subst hreject
    cases hkeeps.symm.trans hst
    decide
  · rw [hledger]
    refine h.unique.apply hadm fun p k happrove => ?_
    subst happrove
    exact hreview hkeeps
  · rw [hledger]
    exact h.work.apply h.unique hadm hkeeps
  · have hs := (h.landed.integrity.next hstep).1
    have hinv := h.landed.integrity.inv (.worker n)
    by_cases hn : Session.worker n = i
    · subst hn
      exact (h.careful n).next h.landed.integrity.wf hinv
        (Processor.Worker.next_of_step (System.State.step_self hstep)) hguard.1 hguard.2
    · have hproc : worker s' n = worker s n := System.State.step_proc_ne hstep hn
      rw [hproc]
      refine (h.careful n).stable hinv (hs.rely h.landed.integrity.wf hn) fun p hp => ?_
      rw [← World.ledger_status, hledger]
      exact h.work.terminal_apply hadm hkeeps hp

end WorkHolds

/-- Every request that is `SENT` belongs to a finished payment, and every payment in processing has
a pending request. -/
def WorkKept (s : State cfg) : Prop :=
  (∀ k e, s.world.outbox.committed k = some e → e.eventType = .paymentRequested →
      e.status = .sent → ∃ st, s.world.status e.aggregateId = some st ∧ st.Terminal) ∧
    ∀ p, s.world.status p = some .processing →
      ∃ k e, s.world.outbox.committed k = some e ∧ e.aggregateId = p ∧
        e.eventType = .paymentRequested ∧ e.status = .pending

/-- No work is lost in a run from empty tables in which reviews are atomic, every `mark_processing`
that finds another version finds a finished payment, and every reschedule finds its event
pending. -/
theorem work_kept {s₀ s : State cfg} (h₀ : Initial s₀)
    (hrun : (payments cfg).Reaches closesCarefully s₀ s) : WorkKept s := by
  have h := hrun.invariant (fun hi hguard hstep => WorkHolds.next hi hguard hstep)
    (WorkHolds.initial h₀)
  refine ⟨fun k e he htype hsent => ?_, fun p hp => ?_⟩
  · exact h.work.sent (World.ledger_isRequest.2 ⟨e, he, rfl, htype⟩)
      (by simp [World.ledger, he, hsent])
  · obtain ⟨k, hk, hd⟩ := h.work.processing hp
    obtain ⟨e, he, haggregate, htype⟩ := World.ledger_isRequest.1 hk
    exact ⟨k, e, he, haggregate, htype, by simpa [World.ledger, he] using hd⟩

set_option maxRecDepth 10000 in
/-- Two workers race for one event; the winner confirms the payment, the other one loses the lock
and marks the event. -/
theorem work_kept_raced : ∃ s : State sampleSettings,
    s.world.status 1 = some .confirmed ∧ WorkKept s := by
  have hrun : (System.State.run closesCarefully (fetchedTwice ++
      [⟨.worker 1, Processor.WorkerAction.getById⟩] ++ callProvider 0 (answer false) ++
      settle 0 11 0 ++ lose 1) sample).map (·.world.status 1) = some (some .confirmed) := by decide
  obtain ⟨s, hs, hstatus⟩ := Option.map_eq_some_iff.1 hrun
  exact ⟨s, hstatus, work_kept (fresh_initial _ _ _) (System.Reaches.of_run hs)⟩

set_option maxRecDepth 10000 in
/-- Work is lost: the winner of the lock meets a timeout and reschedules the event, and the loser
marks it `SENT`. -/
theorem work_not_kept : ¬ ∀ (cfg : Processor.Settings) (s₀ s : State cfg), Initial s₀ →
    (payments cfg).Reaches (landingAtomic fun _ => True) s₀ s → WorkKept s := by
  intro hkept
  have hrun : (System.State.run (landingAtomic fun _ => True) (fetchedTwice ++
      [⟨.worker 1, Processor.WorkerAction.getById⟩] ++ callProvider 0 .timeout ++ settle 0 11 0 ++
      lose 1) sample).map (fun s => (s.world.status 1, s.world.outbox.committed 10)) =
        some (some .processing, some
          { sampleRequest with status := .sent, attempts := 1, nextAttemptAt := 500000 }) := by
    decide
  obtain ⟨s, hs, heq⟩ := Option.map_eq_some_iff.1 hrun
  obtain ⟨hstatus, hevent⟩ := Prod.mk.inj heq
  obtain ⟨st, hst, hterminal⟩ :=
    (hkept sampleSettings sample s (fresh_initial _ _ _) (System.Reaches.of_run hs)).1 10 _ hevent
      rfl rfl
  cases hstatus.symm.trans hst
  exact absurd hterminal (by decide)

end Payments

end PaymentsLab
