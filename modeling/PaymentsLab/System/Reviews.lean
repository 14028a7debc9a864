import PaymentsLab.System.Landing

/-!
# Concurrent reviews

The review use cases check that a payment is in review in one statement and update it by its id in
another one, so two calls can both pass the check. A decision is made once if every `UPDATE` still
finds its payment in review (`review_decided_once`). A rejection is respected under less: no
approval may land on a blocked payment, and no rejection on a payment that has been handed over to
the processor (`rejected_never_charged`).
-/

namespace PaymentsLab

open Foundation

namespace Review

theorem Next.same_call {t : Session} {w w' : World} {c c' : Call} {a : Action}
    (h : Next t w c a w' c') : c'.paymentId = c.paymentId ∧ c'.decision = c.decision := by
  induction h with
  | decided _ _ _ ih₁ ih₂ ih₃ =>
    exact ⟨ih₃.1.trans (ih₂.1.trans ih₁.1), ih₃.2.trans (ih₂.2.trans ih₁.2)⟩
  | _ => exact ⟨rfl, rfl⟩

/-- A call that raises has changed nothing. -/
theorem Next.raised {t : Session} {w w' : World} {c c' : Call} {a : Action}
    (h : Next t w c a w' c') {e : AppError} (hc' : c'.pc = .raised e) : c.pc = .start ∧ w' = w := by
  cases h with
  | refused pc | refusedAtOnce pc => exact ⟨pc, rfl⟩
  | decided load update commit =>
    cases commit with
    | approved | rejected => cases hc'
  | loaded | updated | unmatched | approved | rejected | recorded | crashed => cases hc'

end Review

/-! ## Calls of the provider -/

/-- A worker calls the provider for the payment it is processing, and at no other place. -/
theorem Processor.Next.confirms {cfg : Settings} {t : Session} {w w' : World} {l l' : Worker}
    {a : WorkerAction} (h : Next cfg t w l a w' l') : w'.confirms = w.confirms ∨
      ∃ event payment n, l.pc = .processing event payment ∧
        w'.confirms = w.confirms ++ List.replicate n payment.paymentId := by
  cases h with
  | called pc call => exact .inr ⟨_, _, _, pc, rfl⟩
  | markedMissing pc mark | markedLost pc mark | marked pc mark | markedFanout pc mark =>
    obtain ⟨outbox, rfl⟩ := markEvent_tables mark
    exact .inl rfl
  | finalized pc final run =>
    obtain ⟨payments, outbox, rfl⟩ := Finalization.run_tables run
    exact .inl rfl
  | _ => exact .inl rfl

namespace Payments

variable {cfg : Processor.Settings}

/-- The provider is called by workers, for the payment they are processing. -/
theorem confirms_step {s s' : State cfg} {i : Session} {a : i.Act} (hstep : s.step i a = some s') :
    s'.world.confirms = s.world.confirms ∨
      ∃ n event payment calls, i = .worker n ∧ (worker s n).pc = .processing event payment ∧
        s'.world.confirms = s.world.confirms ++ List.replicate calls payment.paymentId := by
  have hown := System.State.step_self hstep
  cases i with
  | worker n =>
    rcases (Processor.Worker.next_of_step hown).confirms with hsame | ⟨event, payment, calls, h⟩
    · exact .inl hsame
    · exact .inr ⟨n, event, payment, calls, rfl, h⟩
  | review n => exact .inl (Review.Call.next_of_step hown).effects.1
  | create n => exact .inl (Create.Run.next_of_step hown).effects.1
  | environment =>
    cases a with
    | expireGate key =>
      obtain ⟨w', l', he, rfl⟩ := System.State.step_eq_some.1 hstep
      cases he
      exact .inl rfl

/-- A deciding step finds its payment where the guard says. -/
theorem Landed.status_of_decides {P : PaymentStatus → Prop}
    {R : Review.Decision → PaymentStatus → Prop} {s : State cfg} (h : Landed P R s)
    (hreview : ∀ d, R d .inReview) {n : Nat} {a : Review.Action}
    (hd : (review s n).Decides s.world a) :
    ∃ st, s.world.status (review s n).paymentId = some st ∧ R (review s n).decision st := by
  have hinv : Review.Call.Inv s.world (.review n) (review s n) := h.integrity.inv (.review n)
  rcases hd with ⟨payment, pc⟩ | ⟨-, -, hin⟩
  · obtain ⟨row, hrow⟩ := Option.isSome_iff_exists.1 (hinv.known (by rw [pc]; rfl))
    have hst : s.world.status (review s n).paymentId = some row.status := by
      simp [World.status, hrow]
    exact ⟨row.status, hst, h.reviews n payment row.status pc hst⟩
  · exact ⟨.inReview, hin, hreview _⟩

theorem same_call {s s' : State cfg} {i : Session} {a : i.Act} (hstep : s.step i a = some s')
    (n : Nat) : (review s' n).paymentId = (review s n).paymentId ∧
      (review s' n).decision = (review s n).decision := by
  by_cases hi : Session.review n = i
  · subst hi
    exact (Review.Call.next_of_step (System.State.step_self hstep)).same_call
  · have hproc : review s' n = review s n := System.State.step_proc_ne hstep hi
    rw [hproc]
    exact ⟨rfl, rfl⟩

/-- A call that has decided after a step had decided before, or has found its payment where the
guard says and leaves its own status behind. -/
theorem Landed.decided_cases {P : PaymentStatus → Prop} {R : Review.Decision → PaymentStatus → Prop}
    {s s' : State cfg} (h : Landed P R s) (hreview : ∀ d, R d .inReview) {i : Session} {a : i.Act}
    (hstep : s.step i a = some s') {n : Nat} (hn : (review s' n).Decided) :
    (review s n).Decided ∨ i = .review n ∧
      (∃ st, s.world.status (review s n).paymentId = some st ∧ R (review s n).decision st) ∧
      s'.world.status (review s n).paymentId = some (review s n).decision.status := by
  by_cases hi : Session.review n = i
  · subst hi
    have hnext := Review.Call.next_of_step (System.State.step_self hstep)
    have hinv := h.integrity.inv (.review n)
    rcases Review.Call.Inv.status_decided h.integrity.wf hinv hnext hn with
      hold | ⟨hdecides, hstatus⟩
    · exact .inl hold
    · exact .inr ⟨rfl, h.status_of_decides hreview hdecides, hstatus⟩
  · have hproc : review s' n = review s n := System.State.step_proc_ne hstep hi
    exact .inl (hproc ▸ hn)

/-! ## One decision -/

/-- Runs in which the `UPDATE` of every review call finds its payment still in review. -/
abbrev decidesInReview : (payments cfg).Guard :=
  landing (fun _ => True) fun _ st => st = .inReview

/-- What such a run maintains. -/
structure DecisionsHold (s : State cfg) : Prop where
  landed : Landed (fun _ => True) (fun _ st => st = .inReview) s
  active : s.world.ledger.RequestsActive
  unique : s.world.ledger.RequestsUnique
  decided : ∀ n, (review s n).Decided →
    ∃ st, s.world.status (review s n).paymentId = some st ∧ st ≠ .inReview
  once : ∀ n n', (review s n).Decided → (review s n').Decided →
    (review s n).paymentId = (review s n').paymentId → n = n'

namespace DecisionsHold

variable {s s' : State cfg}

theorem initial (h : Initial s) : DecisionsHold s where
  landed := .initial h
  active := by
    rw [h.world]
    intro p k hk
    cases hk
  unique := by
    rw [h.world]
    intro p k k' hk
    cases hk
  decided n hn := by
    have hpc : (review s n).pc = .start := h.review n
    simp [Review.Call.Decided, hpc] at hn
  once n n' hn := by
    have hpc : (review s n).pc = .start := h.review n
    simp [Review.Call.Decided, hpc] at hn

/-- No payment goes back into review. -/
theorem left_review {L : Ledger} {m : Ledger.Move} (hadm : L.Admissible m) {p : UUID}
    (hp : ∃ st, L.status p = some st ∧ st ≠ .inReview) :
    ∃ st, (L.apply m).status p = some st ∧ st ≠ .inReview := by
  obtain ⟨st, hst, hne⟩ := hp
  rcases L.status_apply m p with ⟨hsame, -⟩ | ⟨st', hassigned, hnew⟩
  · exact ⟨st, hsame.trans hst, hne⟩
  · refine ⟨st', hnew, ?_⟩
    cases m with
    | settle p' k o d e =>
      cases hassigned
      cases o <;> decide
    | retry | approve | reject =>
      cases hassigned
      decide
    | create | createWith =>
      cases hassigned
      cases hadm.1.symm.trans hst
    | _ => cases hassigned

theorem next (h : DecisionsHold s) {i : Session} {a : i.Act}
    (hguard : @decidesInReview cfg i s.world (s.proc i) a) (hstep : s.step i a = some s') :
    DecisionsHold s' := by
  obtain ⟨hlanded, m, hm, hadm, hlands, hledger⟩ := h.landed.next (fun _ => rfl) hguard hstep
  refine ⟨hlanded, ?_, ?_, fun n hn => ?_, fun n n' hn hn' hp => ?_⟩
  · rw [hledger]
    refine h.active.apply hadm fun p st hreject hst => ?_
    subst hreject
    cases hlands st hst
    decide
  · rw [hledger]
    refine h.unique.apply hadm fun p k happrove k' => ?_
    subst happrove
    obtain ⟨st, hst⟩ := Option.isSome_iff_exists.1 hadm.1
    cases hlands st hst
    exact h.active.not_isRequest hst (by decide)
  · rw [(same_call hstep n).1]
    rcases h.landed.decided_cases (fun _ => rfl) hstep hn with hold | ⟨-, -, hstatus⟩
    · rw [← World.ledger_status, hledger]
      exact left_review hadm (h.decided n hold)
    · refine ⟨_, hstatus, ?_⟩
      cases (review s n).decision <;> decide
  · rw [(same_call hstep n).1, (same_call hstep n').1] at hp
    rcases h.landed.decided_cases (fun _ => rfl) hstep hn with hold | ⟨hi, ⟨_, hin, rfl⟩, -⟩
    · rcases h.landed.decided_cases (fun _ => rfl) hstep hn' with hold' | ⟨-, ⟨_, hin', rfl⟩, -⟩
      · exact h.once n n' hold hold' hp
      · obtain ⟨st, hst, hne⟩ := h.decided n hold
        rw [hp, hin'] at hst
        cases hst
        exact absurd rfl hne
    · rcases h.landed.decided_cases (fun _ => rfl) hstep hn' with hold' | ⟨hi', -, -⟩
      · obtain ⟨st, hst, hne⟩ := h.decided n' hold'
        rw [← hp, hin] at hst
        cases hst
        exact absurd rfl hne
      · cases hi.symm.trans hi'
        rfl

theorem of_reaches (h : DecisionsHold s) (hrun : (payments cfg).Reaches decidesInReview s s') :
    DecisionsHold s' :=
  hrun.invariant (fun hi hguard hstep => hi.next hguard hstep) h

end DecisionsHold

/-- A payment is decided at most once. -/
structure DecidedOnce (s : State cfg) : Prop where
  returned : ∀ n n' r r', (review s n).pc = .returned r → (review s n').pc = .returned r' →
    (review s n).paymentId = (review s n').paymentId → n = n'
  raised : ∀ n e, (review s n).pc = .raised e → ∃ message, e = .validation message
  unchanged : ∀ n a s' e, s.step (.review n) a = some s' → (review s' n).pc = .raised e →
    (review s n).pc = .start ∧ s'.world = s.world
  oneRequest : ∀ p k k' e e', s.world.IsEvent p .paymentRequested k e →
    s.world.IsEvent p .paymentRequested k' e' → k = k'

/-- A payment is decided at most once in every run from empty tables in which the `UPDATE` of every
review call finds its payment in review: one call returns, the others raise a `ValidationAppError`
without having changed anything, and at most one request is enqueued. -/
theorem review_decided_once {s₀ s : State cfg} (h₀ : Initial s₀)
    (hrun : (payments cfg).Reaches decidesInReview s₀ s) : DecidedOnce s := by
  have h := (DecisionsHold.initial h₀).of_reaches hrun
  refine ⟨fun n n' r r' hn hn' => ?_, fun n e hn => ?_, fun n a s' e hstep he => ?_,
    fun p k k' e e' hk hk' => ?_⟩
  · exact h.once n n' (.inr ⟨r, hn⟩) (.inr ⟨r', hn'⟩)
  · have hinv : Review.Call.Inv s.world (.review n) (review s n) :=
      h.landed.integrity.inv (.review n)
    exact hinv.refused e hn
  · exact (Review.Call.next_of_step (System.State.step_self hstep)).raised he
  · exact h.unique (World.exists_isEvent.1 ⟨e, hk⟩) (World.exists_isEvent.1 ⟨e', hk'⟩)

/-- A payment is created in review, and two calls, an approval and a rejection, load it. -/
def loadedTwice : List (Σ i, (payments sampleSettings).Act i) :=
  creation 0 ⟨0, .review, .allow⟩ 1 10 ++
    [⟨.review 0, Review.Action.load⟩, ⟨.review 1, Review.Action.load⟩]

/-- A call updates its payment, commits and returns. -/
def decision (n : Nat) (eventId : UUID) : List (Σ i, (payments cfg).Act i) :=
  [⟨.review n, Review.Action.updateStatus⟩, ⟨.review n, Review.Action.commit eventId 0⟩,
    ⟨.review n, Review.Action.recordReviewQueueSize⟩]

set_option maxRecDepth 10000 in
/-- One call decides; another one that begins after its commit is refused. -/
theorem review_decided_once_refused : ∃ s : State sampleSettings,
    (review s 1).pc = .raised (.validation "Payment is not in review") ∧ DecidedOnce s := by
  have hrun : (System.State.run decidesInReview (creation 0 ⟨0, .review, .allow⟩ 1 10 ++
      [⟨.review 0, Review.Action.load⟩] ++ decision 0 11 ++ [⟨.review 1, Review.Action.load⟩])
      sample).map (fun s => (review s 1).pc.error) =
        some (some (.validation "Payment is not in review")) := by decide
  obtain ⟨s, hs, he⟩ := Option.map_eq_some_iff.1 hrun
  exact ⟨s, Review.Pc.error_eq_some.1 he,
    review_decided_once (fresh_initial _ _ _) (System.Reaches.of_run hs)⟩

/-- Runs with at most these workers. -/
def withWorkers (allowed : Nat → Prop) : (payments cfg).Guard
  | .worker n, _, _, _ => allowed n
  | _, _, _, _ => True

instance (allowed : Nat → Prop) [DecidablePred allowed] : (i : Session) → (w : World) →
    (l : (payments cfg).Local i) → (a : (payments cfg).Act i) →
      Decidable (@withWorkers cfg allowed i w l a)
  | .worker n, _, _, _ => inferInstanceAs (Decidable (allowed n))
  | .review _, _, _, _ => inferInstanceAs (Decidable True)
  | .create _, _, _, _ => inferInstanceAs (Decidable True)
  | .environment, _, _, _ => inferInstanceAs (Decidable True)

set_option maxRecDepth 10000 in
/-- Two calls that have both loaded the payment both return, without a worker in sight. -/
theorem review_decided_twice : ¬ ∀ (cfg : Processor.Settings) (s₀ s : State cfg), Initial s₀ →
    (payments cfg).Reaches (withWorkers fun _ => False) s₀ s → DecidedOnce s := by
  intro honce
  have hrun : (System.State.run (withWorkers fun _ => False)
      (loadedTwice ++ decision 0 11 ++ decision 1 12) sample).map (fun s =>
        ((review s 0).pc.response.isSome && (review s 1).pc.response.isSome,
          (review s 0).paymentId, (review s 1).paymentId)) = some (true, 1, 1) := by decide
  obtain ⟨s, hs, heq⟩ := Option.map_eq_some_iff.1 hrun
  simp only [Prod.mk.injEq, Bool.and_eq_true] at heq
  obtain ⟨⟨h₀, h₁⟩, hp₀, hp₁⟩ := heq
  obtain ⟨r, hr⟩ := Option.isSome_iff_exists.1 h₀
  obtain ⟨r', hr'⟩ := Option.isSome_iff_exists.1 h₁
  have honly := honce sampleSettings sample s (fresh_initial _ _ _) (System.Reaches.of_run hs)
  have h := honly.returned
    0 1 r r' (Review.Pc.response_eq_some.1 hr) (Review.Pc.response_eq_some.1 hr')
    (hp₀.trans hp₁.symm)
  cases h

/-! ## Rejections -/

/-- No approval lands on a blocked payment, and rejections land on payments that are in review or
blocked. -/
def RespectsRejection : Review.Decision → PaymentStatus → Prop
  | .approve, st => st ≠ .blocked
  | .reject, st => st = .inReview ∨ st = .blocked

instance : (d : Review.Decision) → DecidablePred (RespectsRejection d)
  | .approve => fun st => inferInstanceAs (Decidable (st ≠ .blocked))
  | .reject => fun st => inferInstanceAs (Decidable (st = .inReview ∨ st = .blocked))

/-- Runs in which the `UPDATE`s of the reviews respect rejections. -/
abbrev respectsRejections : (payments cfg).Guard :=
  landing (fun _ => True) RespectsRejection

/-- What such a run maintains. -/
structure RejectionsHold (s : State cfg) : Prop where
  landed : Landed (fun _ => True) RespectsRejection s
  active : s.world.ledger.RequestsActive
  charged : ∀ p ∈ s.world.confirms, ∃ k, s.world.ledger.IsRequest p k
  rejected : ∀ n, (review s n).decision = .reject → (review s n).Decided →
    s.world.status (review s n).paymentId = some .blocked

namespace RejectionsHold

variable {s s' : State cfg}

theorem initial (h : Initial s) : RejectionsHold s where
  landed := .initial h
  active := by
    rw [h.world]
    intro p k hk
    cases hk
  charged := by
    rw [h.world]
    simp [World.empty]
  rejected n _ hn := by
    have hpc : (review s n).pc = .start := h.review n
    simp [Review.Call.Decided, hpc] at hn

/-- A blocked payment has not been charged. -/
theorem not_charged (h : RejectionsHold s) {p : UUID} (hp : s.world.status p = some .blocked) :
    p ∉ s.world.confirms := by
  intro hcharged
  obtain ⟨k, hk⟩ := h.charged p hcharged
  exact h.active.not_isRequest hp (by decide) hk

/-- A blocked payment stays blocked. -/
theorem blocked_apply {L : Ledger} (hactive : L.RequestsActive) {m : Ledger.Move}
    (hadm : L.Admissible m) (hlands : MoveLands (fun _ => True) RespectsRejection L m) {p : UUID}
    (hp : L.status p = some .blocked) : (L.apply m).status p = some .blocked := by
  rcases L.status_apply m p with ⟨hsame, -⟩ | ⟨s, hs, hnew⟩
  · exact hsame.trans hp
  · cases m with
    | retry =>
      cases hs
      exact absurd hadm (hactive.not_isRequest hp (by decide))
    | settle =>
      cases hs
      exact absurd hadm.1 (hactive.not_isRequest hp (by decide))
    | approve =>
      cases hs
      exact absurd rfl (hlands .blocked hp)
    | reject =>
      cases hs
      exact hnew
    | create | createWith =>
      cases hs
      cases hp.symm.trans hadm.1
    | _ => cases hs

/-- The provider is called for payments with a request. -/
theorem charged_next (h : RejectionsHold s) {i : Session} {a : i.Act}
    (hstep : s.step i a = some s') {m : Ledger.Move} (hadm : s.world.ledger.Admissible m)
    (hledger : s'.world.ledger = s.world.ledger.apply m) :
    ∀ p ∈ s'.world.confirms, ∃ k, s'.world.ledger.IsRequest p k := by
  intro p hp
  have hbefore : ∃ k, s.world.ledger.IsRequest p k := by
    rcases confirms_step hstep with hsame | ⟨n, event, payment, calls, rfl, pc, hcalled⟩
    · exact h.charged p (hsame ▸ hp)
    · rw [hcalled] at hp
      rcases List.mem_append.1 hp with hp | hp
      · exact h.charged p hp
      · have hinv : Processor.Worker.Inv cfg s.world (.worker n) (worker s n) :=
          h.landed.integrity.inv (.worker n)
        have hrequest := hinv.isRequest (by rw [pc]; rfl) (.inr (by rw [pc]; rfl))
        rw [← hinv.payment event payment (by rw [pc]; rfl) (by rw [pc]; rfl)] at hrequest
        exact ⟨event.eventId, (List.eq_of_mem_replicate hp) ▸ hrequest⟩
  obtain ⟨k, hk⟩ := hbefore
  rw [hledger]
  exact ⟨k, hadm.kind_kept hk⟩

theorem next (h : RejectionsHold s) {i : Session} {a : i.Act}
    (hguard : @respectsRejections cfg i s.world (s.proc i) a) (hstep : s.step i a = some s') :
    RejectionsHold s' ∧ ∀ p, s.world.status p = some .blocked →
      s'.world.status p = some .blocked := by
  have hreview (d : Review.Decision) : RespectsRejection d .inReview := by
    cases d
    · exact (by decide : PaymentStatus.inReview ≠ .blocked)
    · exact .inl rfl
  obtain ⟨hlanded, m, hm, hadm, hlands, hledger⟩ := h.landed.next hreview hguard hstep
  have hblocked (p : UUID) (hp : s.world.status p = some .blocked) :
      s'.world.status p = some .blocked := by
    rw [← World.ledger_status, hledger]
    exact blocked_apply h.active hadm hlands hp
  refine ⟨⟨hlanded, ?_, h.charged_next hstep hadm hledger, fun n hreject hn => ?_⟩, hblocked⟩
  · rw [hledger]
    refine h.active.apply hadm fun p st hreject hst => ?_
    subst hreject
    rcases hlands st hst with rfl | rfl <;> decide
  · rw [(same_call hstep n).2] at hreject
    rw [(same_call hstep n).1]
    rcases h.landed.decided_cases hreview hstep hn with hold | ⟨-, -, hstatus⟩
    · exact hblocked _ (h.rejected n hreject hold)
    · rw [hstatus, hreject]
      rfl

theorem of_reaches (h : RejectionsHold s) (hrun : (payments cfg).Reaches respectsRejections s s') :
    RejectionsHold s' :=
  hrun.invariant (fun hi hguard hstep => (hi.next hguard hstep).1) h

theorem blocked_of_reaches (h : RejectionsHold s)
    (hrun : (payments cfg).Reaches respectsRejections s s') {p : UUID}
    (hp : s.world.status p = some .blocked) : s'.world.status p = some .blocked := by
  induction hrun with
  | refl => exact hp
  | step run meets next ih => exact ((h.of_reaches run).next meets next).2 p ih

end RejectionsHold

/-- Payments rejected in `s` are blocked in `s'`, and the provider has not been called for them. -/
def RejectionsRespected (s s' : State cfg) : Prop :=
  ∀ n r, (review s n).decision = .reject → (review s n).pc = .returned r →
    s'.world.status (review s n).paymentId = some .blocked ∧
      (review s n).paymentId ∉ s'.world.confirms

/-- A rejected payment stays blocked and is never charged, in every run from empty tables in which
no approval lands on a blocked payment and every rejection on one that is in review or blocked. -/
theorem rejected_never_charged {s₀ s s' : State cfg} (h₀ : Initial s₀)
    (hrun : (payments cfg).Reaches respectsRejections s₀ s)
    (hlater : (payments cfg).Reaches respectsRejections s s') : RejectionsRespected s s' := by
  have h := (RejectionsHold.initial h₀).of_reaches hrun
  intro n r hreject hn
  have hblocked := h.blocked_of_reaches hlater (h.rejected n hreject (.inr ⟨r, hn⟩))
  exact ⟨hblocked, (h.of_reaches hlater).not_charged hblocked⟩

set_option maxRecDepth 10000 in
/-- A rejection returns, and a worker finds nothing to do. -/
theorem rejected_never_charged_idle : ∃ s s' : State sampleSettings,
    (∃ r, (review s 1).pc = .returned r) ∧ RejectionsRespected s s' := by
  have hfirst : (System.State.run respectsRejections (creation 0 ⟨0, .review, .allow⟩ 1 10 ++
      [⟨.review 1, Review.Action.load⟩] ++ decision 1 11) sample).map
        (fun s => (review s 1).pc.response.isSome) = some true := by decide
  obtain ⟨s, hs, hreturned⟩ := Option.map_eq_some_iff.1 hfirst
  obtain ⟨r, hr⟩ := Option.isSome_iff_exists.1 hreturned
  have hsecond : ((System.State.run respectsRejections (creation 0 ⟨0, .review, .allow⟩ 1 10 ++
      [⟨.review 1, Review.Action.load⟩] ++ decision 1 11) sample).bind
        (System.State.run respectsRejections
          [⟨.worker 0, Processor.WorkerAction.fetchPendingRequested 0 []⟩])).isSome := by decide
  rw [hs] at hsecond
  obtain ⟨s', hs'⟩ := Option.isSome_iff_exists.1 hsecond
  exact ⟨s, s', ⟨r, Review.Pc.response_eq_some.1 hr⟩, rejected_never_charged (fresh_initial _ _ _)
    (System.Reaches.of_run hs) (System.Reaches.of_run hs')⟩

set_option maxRecDepth 10000 in
/-- An approval and a rejection that have both loaded the payment commit in this order; the
rejection returns, and the one worker charges the payment. -/
theorem rejected_and_charged : ¬ ∀ (cfg : Processor.Settings) (s₀ s s' : State cfg), Initial s₀ →
    (payments cfg).Reaches (withWorkers (· = 0)) s₀ s →
      (payments cfg).Reaches (withWorkers (· = 0)) s s' → RejectionsRespected s s' := by
  intro hrespected
  let request : OutboxEvent :=
    .new 11 1 .paymentRequested (.paymentRequested 1 "m" "review" none) 0
  have hfirst : (System.State.run (withWorkers (· = 0)) (loadedTwice ++ decision 0 11 ++
      decision 1 12) sample).map (fun s => ((review s 1).pc.response.isSome,
        (review s 1).decision, (review s 1).paymentId)) = some (true, .reject, 1) := by decide
  obtain ⟨s, hs, heq⟩ := Option.map_eq_some_iff.1 hfirst
  simp only [Prod.mk.injEq] at heq
  obtain ⟨hreturned, hreject, hpayment⟩ := heq
  obtain ⟨r, hr⟩ := Option.isSome_iff_exists.1 hreturned
  have hsecond : ((System.State.run (withWorkers (· = 0)) (loadedTwice ++ decision 0 11 ++
      decision 1 12) sample).bind (System.State.run (withWorkers (· = 0))
        ([⟨.worker 0, Processor.WorkerAction.fetchPendingRequested 0 [request]⟩] ++
          callProvider 0 (answer false)))).map (·.world.confirms) = some [1] := by decide
  rw [hs] at hsecond
  obtain ⟨s', hs', hconfirms⟩ := Option.map_eq_some_iff.1 hsecond
  have h := (hrespected sampleSettings sample s s' (fresh_initial _ _ _) (System.Reaches.of_run hs)
    (System.Reaches.of_run hs') 1 r hreject (Review.Pc.response_eq_some.1 hr)).2
  rw [hpayment, hconfirms] at h
  simp at h

end Payments

end PaymentsLab
