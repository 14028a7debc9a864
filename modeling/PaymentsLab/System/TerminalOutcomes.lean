import PaymentsLab.System.Landing

/-!
# Terminal outcomes

`CONFIRMED` and `FAILED` are meant to be final: no later step changes them, and a payment gets one
`PaymentConfirmed` or `PaymentFailed` event. `mark_processing` compares versions and never looks at
the status, so a worker that holds a stale event and loads the payment afresh takes a finished
payment back into processing. As long as no `mark_processing` lands on a terminal payment, outcomes
are final.
-/

namespace PaymentsLab

open Foundation

namespace Ledger

/-- A payment with a terminal event has a terminal status, and one such event. -/
structure Outcomes (L : Ledger) : Prop where
  terminal : ∀ {p k type}, L.kind k = some (p, type) → type.Terminal →
    ∃ s, L.status p = some s ∧ s.Terminal
  unique : ∀ {p k k' type type'}, L.kind k = some (p, type) → L.kind k' = some (p, type') →
    type.Terminal → type'.Terminal → k = k'

/-- A move that finds the payments it assigns a status to still open. -/
def KeepsOutcomes (L : Ledger) : Move → Prop :=
  Payments.MoveLands (fun s => ¬ s.Terminal) (fun _ s => s = .inReview) L

namespace Outcomes

variable {L : Ledger} {m : Move}

/-- A payment that is not terminal has no terminal event. -/
theorem not_terminal (h : L.Outcomes) {p k : UUID} {type : EventType}
    (hp : ∀ s, L.status p = some s → ¬ s.Terminal) (hk : L.kind k = some (p, type)) :
    ¬ type.Terminal := by
  intro ht
  obtain ⟨s, hs, hterminal⟩ := h.terminal hk ht
  exact hp s hs hterminal

/-- A status is assigned to open payments only. -/
theorem assigned_open (ha : L.Admissible m) (hm : L.KeepsOutcomes m) {p : UUID}
    {s : PaymentStatus} (hs : m.assigned = some (p, s)) :
    ∀ s', L.status p = some s' → ¬ s'.Terminal := by
  intro s' hs' hterminal
  cases m with
  | retry => cases hs; exact hm s' hs' hterminal
  | settle => cases hs; exact hm s' hs' hterminal
  | approve =>
    cases hs
    cases hm s' hs'
    exact absurd hterminal (by decide)
  | reject =>
    cases hs
    cases hm s' hs'
    exact absurd hterminal (by decide)
  | create =>
    cases hs
    rw [ha.1] at hs'
    cases hs'
  | createWith =>
    cases hs
    rw [ha.1] at hs'
    cases hs'
  | _ => cases hs

/-- A terminal status is not assigned again. -/
theorem status_apply_of_terminal (ha : L.Admissible m) (hm : L.KeepsOutcomes m) {p : UUID}
    {s : PaymentStatus} (hs : L.status p = some s) (hterminal : s.Terminal) :
    (L.apply m).status p = some s := by
  rcases L.status_apply m p with ⟨hsame, -⟩ | ⟨s', hassigned, -⟩
  · rw [hsame, hs]
  · exact absurd hterminal (assigned_open ha hm hassigned s hs)

/-- The only terminal events a move adds are those of a settlement. -/
theorem added_terminal (ha : L.Admissible m) {p k : UUID} {type : EventType}
    (hadded : m.added = some (k, p, type)) (ht : type.Terminal) :
    ∃ s, m.assigned = some (p, s) ∧ s.Terminal := by
  cases m with
  | settle p' k' o d e =>
    cases hadded
    exact ⟨o.status, rfl, o.terminal_status⟩
  | approve =>
    cases hadded
    exact absurd ht (by decide)
  | createWith p' s k' type' =>
    cases hadded
    rcases ha.2.2.2 with ⟨-, rfl⟩ | ⟨-, rfl⟩ <;> exact absurd ht (by decide)
  | _ => cases hadded

theorem apply (h : L.Outcomes) (ha : L.Admissible m) (hm : L.KeepsOutcomes m) :
    (L.apply m).Outcomes where
  terminal {p k type} hk ht := by
    rcases L.kind_apply m k with ⟨hsame, -⟩ | ⟨e, hadded, hnew⟩
    · obtain ⟨s, hs, hterminal⟩ := h.terminal (hsame ▸ hk) ht
      exact ⟨s, status_apply_of_terminal ha hm hs hterminal, hterminal⟩
    · cases hnew.symm.trans hk
      obtain ⟨s, hassigned, hterminal⟩ := added_terminal ha hadded ht
      rcases L.status_apply m p with ⟨-, hnone⟩ | ⟨s', hs', hstatus⟩
      · exact absurd hassigned (hnone s)
      · cases hassigned.symm.trans hs'
        exact ⟨s, hstatus, hterminal⟩
  unique {p k k' type type'} hk hk' ht ht' := by
    rcases L.kind_apply m k with ⟨hsame, -⟩ | ⟨e, hadded, hnew⟩
    · rcases L.kind_apply m k' with ⟨hsame', -⟩ | ⟨e', hadded', hnew'⟩
      · exact h.unique (hsame ▸ hk) (hsame' ▸ hk') ht ht'
      · cases hnew'.symm.trans hk'
        obtain ⟨s, hassigned, -⟩ := added_terminal ha hadded' ht'
        exact absurd ht (h.not_terminal (assigned_open ha hm hassigned) (hsame ▸ hk))
    · cases hnew.symm.trans hk
      obtain ⟨s, hassigned, -⟩ := added_terminal ha hadded ht
      rcases L.kind_apply m k' with ⟨hsame', -⟩ | ⟨e', hadded', hnew'⟩
      · exact absurd ht' (h.not_terminal (assigned_open ha hm hassigned) (hsame' ▸ hk'))
      · rw [hadded'] at hadded
        exact ((Prod.mk.inj (Option.some.inj hadded)).1).symm

end Outcomes

end Ledger

namespace Payments

variable {cfg : Processor.Settings}

/-- Runs in which reviews are atomic and no `mark_processing` takes a finished payment. -/
abbrev leavesOutcomes : (payments cfg).Guard :=
  landingAtomic fun s => ¬ s.Terminal

/-- What such a run maintains. -/
structure OutcomesHold (s : State cfg) : Prop where
  landed : Landed (fun s => ¬ s.Terminal) (fun _ s => s = .inReview) s
  outcomes : s.world.ledger.Outcomes

namespace OutcomesHold

variable {s s' : State cfg}

theorem initial (h : Initial s) : OutcomesHold s where
  landed := .initial h
  outcomes := by
    rw [h.world]
    constructor <;> simp [World.ledger, World.empty]

theorem next (h : OutcomesHold s) {i : Session} {a : i.Act}
    (hguard : leavesOutcomes i s.world (s.proc i) a) (hstep : s.step i a = some s') :
    OutcomesHold s' ∧ ∀ p st, s.world.status p = some st → st.Terminal →
      s'.world.status p = some st := by
  obtain ⟨hlanded, m, -, hadm, hlands, hledger⟩ :=
    h.landed.next (fun _ => rfl) (landing_of_atomic hguard) hstep
  refine ⟨⟨hlanded, ?_⟩, fun p st hst hterminal => ?_⟩
  · rw [hledger]
    exact h.outcomes.apply hadm hlands
  · rw [← World.ledger_status, hledger]
    exact Ledger.Outcomes.status_apply_of_terminal hadm hlands hst hterminal

theorem of_reaches (h : OutcomesHold s) (hrun : (payments cfg).Reaches leavesOutcomes s s') :
    OutcomesHold s' :=
  hrun.invariant (fun hi hguard hstep => (hi.next hguard hstep).1) h

/-- Terminal statuses are final along a run. -/
theorem status_of_reaches (h : OutcomesHold s)
    (hrun : (payments cfg).Reaches leavesOutcomes s s') {p : UUID} {st : PaymentStatus}
    (hst : s.world.status p = some st) (hterminal : st.Terminal) :
    s'.world.status p = some st := by
  induction hrun with
  | refl => exact hst
  | step run meets next ih => exact ((h.of_reaches run).next meets next).2 p st ih hterminal

end OutcomesHold

/-- From `s` to `s'` no terminal status changes, and in `s'` no payment has two terminal events. -/
def OutcomesFinal (s s' : State cfg) : Prop :=
  (∀ p st, s.world.status p = some st → st.Terminal → s'.world.status p = some st) ∧
    ∀ k k' e e', s'.world.outbox.committed k = some e → s'.world.outbox.committed k' = some e' →
      e.aggregateId = e'.aggregateId → e.eventType.Terminal → e'.eventType.Terminal → k = k'

/-- Outcomes are final in every run from empty tables in which reviews are atomic and no
`mark_processing` lands on a payment that is already confirmed or failed. -/
theorem terminal_outcomes_final {s₀ s s' : State cfg} (h₀ : Initial s₀)
    (hrun : (payments cfg).Reaches leavesOutcomes s₀ s)
    (hlater : (payments cfg).Reaches leavesOutcomes s s') : OutcomesFinal s s' := by
  have h := (OutcomesHold.initial h₀).of_reaches hrun
  refine ⟨fun p st hst ht => h.status_of_reaches hlater hst ht, ?_⟩
  intro k k' e e' hk hk' haggregate ht ht'
  have hkind : s'.world.ledger.kind k = some (e'.aggregateId, e.eventType) := by
    simp [World.ledger, hk, haggregate]
  have hkind' : s'.world.ledger.kind k' = some (e'.aggregateId, e'.eventType) := by
    simp [World.ledger, hk']
  exact (h.of_reaches hlater).outcomes.unique hkind hkind' ht ht'

set_option maxRecDepth 10000 in
/-- Two workers hold the event; the second one has loaded the payment before the first one
confirmed it, and loses the lock. -/
theorem terminal_outcomes_final_raced : ∃ s s' : State sampleSettings,
    s.world.status 1 = some .confirmed ∧ OutcomesFinal s s' := by
  let first := fetchedTwice ++ [⟨.worker 1, Processor.WorkerAction.getById⟩] ++
    callProvider 0 (answer false) ++ settle 0 11 0
  have hfirst : (System.State.run leavesOutcomes first sample).map (·.world.status 1) =
      some (some .confirmed) := by decide
  obtain ⟨s, hs, hstatus⟩ := Option.map_eq_some_iff.1 hfirst
  have hsecond : ((System.State.run leavesOutcomes first sample).bind
      (System.State.run leavesOutcomes (lose 1))).isSome := by decide
  rw [hs] at hsecond
  obtain ⟨s', hs'⟩ := Option.isSome_iff_exists.1 hsecond
  exact ⟨s, s', hstatus, terminal_outcomes_final (fresh_initial _ _ _)
    (System.Reaches.of_run hs) (System.Reaches.of_run hs')⟩

set_option maxRecDepth 10000 in
/-- Outcomes are not final in every run with atomic reviews: a second worker that has fetched the
event before the first one confirmed the payment loads the payment afterwards, and fails it. -/
theorem terminal_outcomes_not_final : ¬ ∀ (cfg : Processor.Settings) (s₀ s s' : State cfg),
    Initial s₀ → (payments cfg).Reaches (landingAtomic fun _ => True) s₀ s →
      (payments cfg).Reaches (landingAtomic fun _ => True) s s' → OutcomesFinal s s' := by
  intro hfinal
  let first := fetchedTwice ++ callProvider 0 (answer false) ++ settle 0 11 0
  have hfirst : (System.State.run (landingAtomic fun _ => True) first sample).map
      (·.world.status 1) = some (some .confirmed) := by decide
  obtain ⟨s, hs, hconfirmed⟩ := Option.map_eq_some_iff.1 hfirst
  have hsecond : ((System.State.run (landingAtomic fun _ => True) first sample).bind
      (System.State.run (landingAtomic fun _ => True)
        (callProvider 1 (answer true) ++ settle 1 12 0))).map (·.world.status 1) =
      some (some .failed) := by decide
  rw [hs] at hsecond
  obtain ⟨s', hs', hfailed⟩ := Option.map_eq_some_iff.1 hsecond
  have h := (hfinal sampleSettings sample s s' (fresh_initial _ _ _)
    (System.Reaches.of_run hs) (System.Reaches.of_run hs')).1 1 .confirmed hconfirmed (.inl rfl)
  cases hfailed.symm.trans h

end Payments

end PaymentsLab
