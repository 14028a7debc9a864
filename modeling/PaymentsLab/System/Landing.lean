import PaymentsLab.System.Refinement

/-!
# What an `UPDATE` has landed on

An `UPDATE` of a payment row holds the row until the commit, so the committed status it has landed
on is still there when the transaction commits. `landing P R` is the guard under which a worker's
`mark_processing` lands on payments of status `P` only, and the `UPDATE` of a review call with
decision `d` on payments of status `R d` only; then every move of the ledger does so
(`Landed.next`).
-/

namespace PaymentsLab

open Foundation

namespace Processor

/-- While the worker holds a payment row, the committed status of the payment is in `P`. -/
def Worker.Lands (cfg : Settings) (P : PaymentStatus → Prop) (w : World) (l : Worker) : Prop :=
  ∀ payment s, l.pc.payment = some payment → (l.pc.heldStatus cfg).isSome →
    w.status payment.paymentId = some s → P s

/-- The payment whose row `mark_processing` is about to take. -/
def WorkerPc.target : WorkerPc → Option Payment
  | .loaded _ payment => some payment
  | _ => none

def WorkerAction.isMarkProcessing : WorkerAction → Bool
  | .markProcessing => true
  | _ => false

/-- If this step is a `mark_processing` that matches, it matches a payment of status `P`. -/
def Worker.landing (P : PaymentStatus → Prop) (w : World) (l : Worker) (a : WorkerAction) : Prop :=
  a.isMarkProcessing = true → ∀ payment ∈ l.pc.target,
    ∀ row ∈ w.payments.committed payment.paymentId, row.version = payment.version → P row.status

instance Worker.decidableLanding (P : PaymentStatus → Prop) [DecidablePred P] (w : World)
    (l : Worker) (a : WorkerAction) : Decidable (l.landing P w a) :=
  inferInstanceAs (Decidable (_ → _))

namespace Worker.Lands

variable {cfg : Settings} {P : PaymentStatus → Prop} {w w' : World} {t : Session}
  {l l' : Worker} {a : WorkerAction}

/-- No other session can change the status of a payment whose row is held. -/
theorem stable (h : Lands cfg P w l) (hinv : Worker.Inv cfg w t l) (hr : w.Rely t w') :
    Lands cfg P w' l := by
  intro payment s hp hheld hs
  obtain ⟨status, hstatus⟩ := Option.isSome_iff_exists.1 hheld
  obtain ⟨row, hrow, -⟩ := hinv.held payment status hp hstatus
  refine h payment s hp hheld ?_
  rw [← hs, World.status, World.status, hr.payments.held (by rw [hrow, Function.update_self]; rfl)]

/-- A step of the worker itself. -/
theorem next (h : Lands cfg P w l) (hinv : Worker.Inv cfg w t l) (hn : Next cfg t w l a w' l')
    (hguard : l.landing P w a) : Lands cfg P w' l' := by
  have quiet (ha : a ≠ .commit) : w'.status = w.status :=
    congrArg Ledger.status (hinv.ledger_eq hn ha)
  intro payment s hp hheld hs
  cases hn with
  | fetched | found | notFound | markedMissing | missed | markedLost | committed | fetchedFanout
  | published | markedFanout | committedFanout | ended | crashed => cases hheld
  | @locked event loaded row pc free view version =>
    cases hp
    have hclean := hinv.clean (by rw [pc]; rfl) (by rw [pc]; rfl) (by rw [pc]; rfl)
    rw [RowStore.view_of_committed (by rw [hclean.payments])] at view
    have hrow := hguard rfl loaded (by rw [pc]; rfl) row view version
    rw [quiet (by simp), Settings.paymentId_afterMarkProcessing, World.status, view] at hs
    cases hs
    exact hrow
  | called pc | finalized pc | marked pc =>
    rw [quiet (by simp)] at hs
    exact h payment s (by rw [pc]; exact hp) (by rw [pc]; rfl) hs
  | unfinalized pc => exact h payment s (by rw [pc]; exact hp) (by rw [pc]; rfl) hs

end Worker.Lands

end Processor

namespace Review

/-- Between its `UPDATE` and its commit, the committed status of the payment is in `R`. -/
def Call.Lands (R : Decision → PaymentStatus → Prop) (w : World) (c : Call) : Prop :=
  ∀ payment s, c.pc = .updated payment → w.status c.paymentId = some s → R c.decision s

/-- If this step is the `UPDATE`, the payment has a status in `R` of the decision. -/
def Call.landing (R : Decision → PaymentStatus → Prop) (w : World) (c : Call) (a : Action) :
    Prop :=
  a = .updateStatus → ∀ s ∈ w.status c.paymentId, R c.decision s

instance Call.decidableLanding (R : Decision → PaymentStatus → Prop) [∀ d, DecidablePred (R d)]
    (w : World) (c : Call) (a : Action) : Decidable (c.landing R w a) :=
  inferInstanceAs (Decidable (_ → _))

/-- A step of a call that nothing interleaves. -/
def Action.Atomic : Action → Prop
  | .load => False
  | .updateStatus => False
  | .commit _ _ => False
  | _ => True

instance Action.decidableAtomic : (a : Action) → Decidable a.Atomic
  | .load => inferInstanceAs (Decidable False)
  | .updateStatus => inferInstanceAs (Decidable False)
  | .commit _ _ => inferInstanceAs (Decidable False)
  | .decide _ _ => inferInstanceAs (Decidable True)
  | .recordReviewQueueSize => inferInstanceAs (Decidable True)
  | .crash => inferInstanceAs (Decidable True)

namespace Call.Lands

variable {R : Decision → PaymentStatus → Prop} {w w' : World} {t : Session} {c c' : Call}
  {a : Action}

theorem stable (h : Lands R w c) (hinv : Call.Inv w t c) (hr : w.Rely t w') : Lands R w' c := by
  intro payment s hpc hs
  obtain ⟨⟨row, hrow, -⟩, -⟩ := hinv.held payment hpc
  refine h payment s hpc ?_
  rw [← hs, World.status, World.status, hr.payments.held (by rw [hrow, Function.update_self]; rfl)]

theorem next (hinv : Call.Inv w t c) (hn : Next t w c a w' c')
    (hguard : c.landing R w a) : Lands R w' c' := by
  intro payment s hpc hs
  cases hn with
  | loaded | refused | refusedAtOnce | approved | rejected | recorded | crashed => cases hpc
  | unmatched pc none =>
    have hclean := hinv.clean (by simp [pc])
    have hknown := hinv.known (by rw [pc]; rfl)
    rw [RowStore.view_of_committed (by rw [hclean.payments]), or_self] at none
    simp [none] at hknown
  | updated pc free view => exact hguard rfl s (by simpa [World.status] using hs)
  | decided load update commit =>
    cases commit with
    | approved | rejected => cases hpc

end Call.Lands

/-- A call that reaches a decision takes the deciding step, and leaves its status behind. -/
theorem Call.Inv.status_decided {w w' : World} {t : Session} {c c' : Call} {a : Action}
    (hw : w.WF) (h : Call.Inv w t c) (hn : Next t w c a w' c') (hc' : c'.Decided) :
    c.Decided ∨ c.Decides w a ∧ w'.status c.paymentId = some c.decision.status := by
  have hcommit {w w' : World} {c c' : Call} {payment : Payment} {eventId : UUID} {now : Instant}
      (h : Call.Inv w t c) (pc : c.pc = .updated payment)
      (hn : Next t w c (.commit eventId now) w' c') :
      w'.status c.paymentId = some c.decision.status := by
    have hledger := congrArg (fun L => L.status c.paymentId) (h.ledger_commit pc hn).2
    cases hd : c.decision <;> rw [hd] at hledger <;>
      simpa [Ledger.apply, Ledger.Move.assigned, overlay, Decision.status] using hledger
  cases hn with
  | loaded | refused | refusedAtOnce | updated | unmatched | crashed =>
    rcases hc' with ⟨payment, hpc⟩ | ⟨response, hpc⟩ <;> cases hpc
  | recorded pc => exact .inl (.inl ⟨_, pc⟩)
  | approved pc hd hnew hfree =>
    exact .inr ⟨.inl ⟨_, pc⟩, hcommit h pc (.approved pc hd hnew hfree)⟩
  | @rejected _ _ payment eventId now pc hd =>
    have hn : Next t w c (.commit eventId now) (w.commit t) { c with pc := .committed payment } :=
      .rejected pc hd
    exact .inr ⟨.inl ⟨_, pc⟩, hcommit h pc hn⟩
  | decided load update commit =>
    obtain ⟨pc, row, hrow, hstatus, rfl, rfl, h₂⟩ := h.decided hw load update
    have hdecided := hcommit h₂ rfl commit
    refine .inr ⟨.inr ⟨pc, ⟨_, _, rfl⟩, ?_⟩, hdecided⟩
    simp [World.status, hrow, hstatus]

end Review

namespace Payments

variable {cfg : Processor.Settings}

/-- Runs in which the `UPDATE`s that take a payment row land on payments of these statuses. -/
def landing (P : PaymentStatus → Prop) (R : Review.Decision → PaymentStatus → Prop) :
    (payments cfg).Guard
  | .worker _, w, l, a => Processor.Worker.landing P w l a
  | .review _, w, c, a => Review.Call.landing R w c a
  | _, _, _, _ => True

instance (P : PaymentStatus → Prop) (R : Review.Decision → PaymentStatus → Prop) [DecidablePred P]
    [∀ d, DecidablePred (R d)] : (i : Session) → (w : World) → (l : (payments cfg).Local i) →
      (a : (payments cfg).Act i) → Decidable (@landing cfg P R i w l a)
  | .worker _, w, l, a => Processor.Worker.decidableLanding P w l a
  | .review _, w, c, a => Review.Call.decidableLanding R w c a
  | .create _, _, _, _ => inferInstanceAs (Decidable True)
  | .environment, _, _, _ => inferInstanceAs (Decidable True)

/-- Runs in which every review call is atomic and `mark_processing` lands on payments of these
statuses. -/
def landingAtomic (P : PaymentStatus → Prop) : (payments cfg).Guard
  | .worker _, w, l, a => Processor.Worker.landing P w l a
  | .review _, _, _, a => Review.Action.Atomic a
  | _, _, _, _ => True

instance (P : PaymentStatus → Prop) [DecidablePred P] : (i : Session) → (w : World) →
    (l : (payments cfg).Local i) → (a : (payments cfg).Act i) →
      Decidable (@landingAtomic cfg P i w l a)
  | .worker _, w, l, a => Processor.Worker.decidableLanding P w l a
  | .review _, _, _, a => Review.Action.decidableAtomic a
  | .create _, _, _, _ => inferInstanceAs (Decidable True)
  | .environment, _, _, _ => inferInstanceAs (Decidable True)

/-- An atomic call updates payments in review only. -/
theorem landing_of_atomic {P : PaymentStatus → Prop} {i : Session} {w : World} {l : i.Local}
    {a : i.Act} (h : @landingAtomic cfg P i w l a) :
    @landing cfg P (fun _ s => s = .inReview) i w l a := by
  cases i with
  | worker n => exact h
  | review n =>
    intro ha
    subst ha
    exact h.elim
  | create n => trivial
  | environment => trivial

/-- Integrity, together with where the `UPDATE`s have landed. -/
structure Landed (P : PaymentStatus → Prop) (R : Review.Decision → PaymentStatus → Prop)
    (s : State cfg) : Prop where
  integrity : Integrity s
  workers : ∀ n, Processor.Worker.Lands cfg P s.world (worker s n)
  reviews : ∀ n, Review.Call.Lands R s.world (review s n)

/-- A move lands on payments of these statuses. -/
def MoveLands (P : PaymentStatus → Prop) (R : Review.Decision → PaymentStatus → Prop) (L : Ledger) :
    Ledger.Move → Prop
  | .retry p _ => ∀ s, L.status p = some s → P s
  | .settle p _ _ _ _ => ∀ s, L.status p = some s → P s
  | .approve p _ => ∀ s, L.status p = some s → R .approve s
  | .reject p => ∀ s, L.status p = some s → R .reject s
  | _ => True

namespace Landed

variable {P : PaymentStatus → Prop} {R : Review.Decision → PaymentStatus → Prop} {s s' : State cfg}

theorem initial (h : Initial s) : Landed P R s where
  integrity := .initial h
  workers n payment status hp := by
    have hpc : (worker s n).pc = .idle := h.worker n
    rw [hpc] at hp
    cases hp
  reviews n payment status hpc := by
    have hstart : (review s n).pc = .start := h.review n
    rw [hstart] at hpc
    cases hpc

/-- A guarded step: where it lands, and its move. -/
theorem next (h : Landed P R s) (hreview : ∀ d, R d .inReview) {i : Session} {a : i.Act}
    (hguard : landing P R i s.world (s.proc i) a) (hstep : s.step i a = some s') :
    Landed P R s' ∧ ∃ m, Session.Moves cfg s.world i (s.proc i) a m ∧
      s.world.ledger.Admissible m ∧ MoveLands P R s.world.ledger m ∧
      s'.world.ledger = s.world.ledger.apply m := by
  have hown := System.State.step_self hstep
  obtain ⟨hs, hi'⟩ := h.integrity.next hstep
  obtain ⟨m, hm, hadm, hledger⟩ := h.integrity.moves hstep
  refine ⟨⟨hi', fun n => ?_, fun n => ?_⟩, m, hm, hadm, ?_, hledger⟩
  · by_cases hn : Session.worker n = i
    · subst hn
      exact (h.workers n).next (h.integrity.inv (.worker n)) (Processor.Worker.next_of_step hown)
        hguard
    · have hproc : worker s' n = worker s n := System.State.step_proc_ne hstep hn
      rw [hproc]
      exact (h.workers n).stable (h.integrity.inv (.worker n)) (hs.rely h.integrity.wf hn)
  · by_cases hn : Session.review n = i
    · subst hn
      exact Review.Call.Lands.next (h.integrity.inv (.review n)) (Review.Call.next_of_step hown)
        hguard
    · have hproc : review s' n = review s n := System.State.step_proc_ne hstep hn
      rw [hproc]
      exact (h.reviews n).stable (h.integrity.inv (.review n)) (hs.rely h.integrity.wf hn)
  · cases i with
    | worker n =>
      have hlands : Processor.Worker.Lands cfg P s.world (s.proc (.worker n)) := h.workers n
      cases hm with
      | skip | lose | fanOut => trivial
      | retry pc settle =>
        exact fun status => hlands _ status (by rw [pc]; rfl) (by rw [pc]; rfl)
      | settle pc settle =>
        exact fun status => hlands _ status (by rw [pc]; rfl) (by rw [pc]; rfl)
    | review n =>
      have hlands : Review.Call.Lands R s.world (s.proc (.review n)) := h.reviews n
      have hdecides {d : Review.Decision} (hd : (s.proc (.review n)).decision = d)
          (hdecides : Review.Call.Decides s.world (s.proc (.review n)) a) (status : PaymentStatus)
          (hs : s.world.status (s.proc (.review n)).paymentId = some status) : R d status := by
        rcases hdecides with ⟨payment, pc⟩ | ⟨-, -, hin⟩
        · rw [← hd]
          exact hlands payment status pc hs
        · cases hin.symm.trans hs
          exact hreview d
      cases hm with
      | skip => trivial
      | approve decides decision => exact hdecides decision decides
      | reject decides decision => exact hdecides decision decides
    | create n =>
      cases hm with
      | skip | create | createWith => trivial
    | environment =>
      cases hm
      trivial

end Landed

end Payments

end PaymentsLab
