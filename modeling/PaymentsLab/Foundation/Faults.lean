import PaymentsLab.Foundation.Sequential

/-!
# Programs whose commands may fail

`Program.attempt` runs a program on the answers of an environment. A command that is not answered
raises an error the program does not catch, and ends the attempt. `Obeys.attempt` carries the logic
of programs over to attempts: a command that fails is one that was allowed.
-/

namespace Foundation

namespace Program

variable {C : Type} {R : C → Type} {ε α β W I : Type}

/-- How an environment answers a command after what the program has done; `none` is an error. -/
abbrev Answers (C : Type) (R : C → Type) : Type :=
  History C R → (c : C) → Option (R c)

inductive Ending (C ε α : Type)
  | returned (a : α)
  | raised (e : ε)
  /-- the command that was not answered -/
  | failed (c : C)

/-- The end of an attempt, with all it has done, the last command first. -/
structure Attempt (C : Type) (R : C → Type) (ε α : Type) where
  history : History C R
  ending : Ending C ε α

def attempt (answers : Answers C R) : Program C R ε α → History C R → Attempt C R ε α
  | .ret a, h => ⟨h, .returned a⟩
  | .raise e, h => ⟨h, .raised e⟩
  | .call c next, h =>
    match answers h c with
    | none => ⟨h, .failed c⟩
    | some r => (next r).attempt answers (⟨c, r⟩ :: h)

/-- The program comes to command `c` with the history `h'`. -/
def Asks (answers : Answers C R) : Program C R ε α → History C R → History C R → C → Prop
  | .ret _, _, _, _ => False
  | .raise _, _, _, _ => False
  | .call c next, h, h', c' =>
    (h = h' ∧ c = c') ∨ ∃ r, answers h c = some r ∧ (next r).Asks answers (⟨c, r⟩ :: h) h' c'

section Attempt

variable {answers : Answers C R} {p : Program C R ε α} {h h' : History C R} {c : C}

theorem attempt_call {next : R c → Program C R ε α} {r : R c} (hr : answers h c = some r) :
    (Program.call c next).attempt answers h = (next r).attempt answers (⟨c, r⟩ :: h) := by
  simp only [attempt, hr]

theorem attempt_call_none {next : R c → Program C R ε α} (hr : answers h c = none) :
    (Program.call c next).attempt answers h = ⟨h, .failed c⟩ := by
  simp only [attempt, hr]

/-- An attempt fails at a command the program comes to and that is not answered. -/
theorem attempt_eq_failed_iff :
    p.attempt answers h = ⟨h', .failed c⟩ ↔ p.Asks answers h h' c ∧ answers h' c = none := by
  induction p generalizing h with
  | ret a | raise e =>
    refine ⟨fun heq => ?_, fun ⟨hasks, _⟩ => hasks.elim⟩
    simp [attempt] at heq
  | call c₁ next ih =>
    cases hr : answers h c₁ with
    | none =>
      rw [attempt_call_none hr]
      constructor
      · intro heq
        cases heq
        exact ⟨.inl ⟨rfl, rfl⟩, hr⟩
      · rintro ⟨⟨rfl, rfl⟩ | ⟨r, hr', -⟩, -⟩
        · rfl
        · exact nomatch hr.symm.trans hr'
    | some r =>
      rw [attempt_call hr, ih]
      refine and_congr_left fun hnone => ⟨fun hasks => .inr ⟨r, hr, hasks⟩, ?_⟩
      rintro (⟨rfl, rfl⟩ | ⟨r', hr', hasks⟩)
      · exact nomatch hr.symm.trans hnone
      · cases hr.symm.trans hr'
        exact hasks

/-- What the logic of programs says of the end of an attempt. -/
def Attempt.Meets (allows : History C R → C → Prop) (post : History C R → Except ε α → Prop)
    (t : Attempt C R ε α) : Prop :=
  match t.ending with
  | .returned a => post t.history (.ok a)
  | .raised e => post t.history (.error e)
  | .failed c => allows t.history c

theorem Obeys.attempt {admits : (c : C) → R c → Prop} {allows : History C R → C → Prop}
    {post : History C R → Except ε α → Prop} (hp : p.Obeys admits allows post h)
    (hadmits : ∀ h c r, answers h c = some r → admits c r) :
    (p.attempt answers h).Meets allows post := by
  induction p generalizing h with
  | ret a => exact hp
  | raise e => exact hp
  | call c next ih =>
    cases hr : answers h c with
    | none =>
      rw [attempt_call_none hr]
      exact hp.1
    | some r =>
      rw [attempt_call hr]
      exact ih r (hp.2 r (hadmits h c r hr))

/-- A program that returns once it is `done`, and issues one more fallible command then: an attempt
returns once it is `done`, if that command is answered. -/
theorem Obeys.attempt_returns_iff {done : History C R → Prop} {fallible : C → Prop} {late : C}
    {post : History C R → α → Prop}
    (hp : p.Obeys (fun _ _ => True) (fun h c => done h → fallible c → c = late)
      (fun h o => (done h → ∃ a, o = .ok a) ∧ ∀ a, o = .ok a → post h a) h)
    (hfails : ∀ h c, answers h c = none → fallible c) :
    let t := p.attempt answers h
    ((done t.history → ∃ a, t.ending = .returned a) ↔
        ∀ h', done h' → p.Asks answers h h' late → answers h' late ≠ none) ∧
      ∀ a, t.ending = .returned a → post t.history a := by
  have hmeets : (p.attempt answers h).Meets (fun h c => done h → fallible c → c = late)
      fun h o => (done h → ∃ a, o = .ok a) ∧ ∀ a, o = .ok a → post h a :=
    hp.attempt fun _ _ _ _ => trivial
  dsimp only
  refine ⟨⟨fun hreturns h' hdone hasks hnone => ?_, fun hlate hdone => ?_⟩, fun a ha => ?_⟩
  · rw [attempt_eq_failed_iff.2 ⟨hasks, hnone⟩] at hreturns
    obtain ⟨a, ha⟩ := hreturns hdone
    cases ha
  · cases ht : p.attempt answers h with
    | mk h' ending =>
      rw [ht] at hmeets hdone
      cases ending with
      | returned a => exact ⟨a, rfl⟩
      | raised e =>
        obtain ⟨_, heq⟩ := hmeets.1 hdone
        cases heq
      | failed c =>
        obtain ⟨hasks, hnone⟩ := attempt_eq_failed_iff.1 ht
        cases hmeets hdone (hfails h' c hnone)
        exact absurd hnone (hlate h' hdone hasks)
  · unfold Attempt.Meets at hmeets
    rw [ha] at hmeets
    exact hmeets.2 a rfl

end Attempt

/-! ## Histories that grow -/

section Obeys

variable {admits : (c : C) → R c → Prop} {allows : History C R → C → Prop}
  {post : History C R → Except ε α → Prop} {p : Program C R ε α} {h : History C R}

/-- What has been done stays done. -/
theorem Obeys.keep (hp : p.Obeys admits allows post h) {x : Σ c, R c} (hx : x ∈ h) :
    p.Obeys admits allows (fun h o => post h o ∧ x ∈ h) h := by
  induction p generalizing h with
  | ret a => exact ⟨hp, hx⟩
  | raise e => exact ⟨hp, hx⟩
  | call c next ih => exact ⟨hp.1, fun r hr => ih r (hp.2 r hr) (List.mem_cons_of_mem _ hx)⟩

/-- A program that issues commands of `P` only, after nothing but such commands. -/
theorem Issues.obeys_only {P : C → Prop} (hp : p.Issues P)
    (hallows : ∀ h c, (∀ x : Σ c, R c, x ∈ h → P x.1) → P c → allows h c)
    (hh : ∀ x ∈ h, P x.1) : p.Obeys admits allows (fun h _ => ∀ x ∈ h, P x.1) h :=
  hp.obeys (Q := fun h => ∀ x ∈ h, P x.1) (fun h c hc hh => hallows h c hh hc)
    (fun _ _ _ hc hh => List.forall_mem_cons.2 ⟨hc, hh⟩) hh

end Obeys

end Program

end Foundation
