import PaymentsLab.Foundation.Program

/-!
# Programs that run by themselves

`Program.run` executes a program on a world with nothing in between. The inputs of its steps are a
stream, of which it takes one for each command.

`Program.Issues` bounds the commands of a program whatever the replies are. What every such command
preserves, the run preserves (`Issues.run_preserves`), and worlds that no such command can tell
apart give the same outcome (`Issues.run_congr`).
-/

namespace Foundation

namespace Program

variable {C : Type} {R : C → Type} {ε α β W I : Type}

/-- The end of a run: the outcome, the world, and the inputs that are left. -/
structure Ran (ε α W I : Type) where
  outcome : Except ε α
  world : W
  inputs : Nat → I

def run (H : Handler C R W I) : Program C R ε α → W → (Nat → I) → Ran ε α W I
  | .ret a, w, is => ⟨.ok a, w, is⟩
  | .raise e, w, is => ⟨.error e, w, is⟩
  | .call c next, w, is =>
    let r := H.exec (is 0) w c
    (next r.1).run H r.2 fun n => is (n + 1)

/-- What comes after a run. -/
def Ran.andThen (r : Ran ε α W I) (f : α → W → (Nat → I) → Ran ε β W I) : Ran ε β W I :=
  match r.outcome with
  | .ok a => f a r.world r.inputs
  | .error e => ⟨.error e, r.world, r.inputs⟩

/-- What catches the exception of a run. -/
def Ran.handle (r : Ran ε α W I) (f : ε → W → (Nat → I) → Ran ε α W I) : Ran ε α W I :=
  match r.outcome with
  | .ok _ => r
  | .error e => f e r.world r.inputs

@[simp] theorem Ran.andThen_ok {a : α} {w : W} {is : Nat → I}
    {f : α → W → (Nat → I) → Ran ε β W I} :
    (⟨.ok a, w, is⟩ : Ran ε α W I).andThen f = f a w is :=
  rfl

theorem Ran.andThen_eq_ok {r : Ran ε α W I} {f : α → W → (Nat → I) → Ran ε β W I} {b : β}
    (h : (r.andThen f).outcome = .ok b) :
    ∃ a, r.outcome = .ok a ∧ r.andThen f = f a r.world r.inputs := by
  unfold andThen at h ⊢
  split at h
  · next a ha => exact ⟨a, ha, rfl⟩
  · cases h

section Run

variable {H : Handler C R W I} {w w' : W} {is : Nat → I}

@[simp] theorem run_pure {a : α} :
    (pure a : Program C R ε α).run H w is = ⟨.ok a, w, is⟩ :=
  rfl

@[simp] theorem run_issue {c : C} :
    (issue c : Program C R ε (R c)).run H w is =
      ⟨.ok (H.exec (is 0) w c).1, (H.exec (is 0) w c).2, fun n => is (n + 1)⟩ :=
  rfl

theorem run_bind {p : Program C R ε α} {f : α → Program C R ε β} :
    (p >>= f).run H w is = (p.run H w is).andThen fun a => (f a).run H := by
  induction p generalizing w is with
  | ret a => rfl
  | raise e => rfl
  | call c next ih => exact ih _

/-- A run that returns has returned from its first part. -/
theorem run_bind_eq_ok {p : Program C R ε α} {f : α → Program C R ε β} {b : β}
    (h : ((p >>= f).run H w is).outcome = .ok b) :
    ∃ a, (p.run H w is).outcome = .ok a ∧
      (p >>= f).run H w is = (f a).run H (p.run H w is).world (p.run H w is).inputs := by
  rw [run_bind] at h ⊢
  exact Ran.andThen_eq_ok h

theorem run_tryCatch {p : Program C R ε α} {handler : ε → Program C R ε α} :
    (MonadExcept.tryCatch p handler).run H w is =
      (p.run H w is).handle fun e => (handler e).run H := by
  induction p generalizing w is with
  | ret a => rfl
  | raise e => rfl
  | call c next ih => exact ih _

/-- A run of a program that obeys, on replies that are admitted, meets the postcondition. -/
theorem Obeys.run {admits : (c : C) → R c → Prop} {allows : History C R → C → Prop}
    {post : History C R → Except ε α → Prop} {p : Program C R ε α} {h : History C R}
    (hp : p.Obeys admits allows post h) (hadmits : ∀ i w c, admits c (H.exec i w c).1) :
    ∃ h', post h' (p.run H w is).outcome := by
  induction p generalizing h w is with
  | ret a => exact ⟨h, hp⟩
  | raise e => exact ⟨h, hp⟩
  | call c next ih => exact ih _ (hp.2 _ (hadmits (is 0) w c))

end Run

/-! ## Commands -/

/-- Every command the program can issue is one of `P`. -/
def Issues (P : C → Prop) : Program C R ε α → Prop
  | .ret _ => True
  | .raise _ => True
  | .call c next => P c ∧ ∀ r, (next r).Issues P

section Issues

variable {P : C → Prop} {p : Program C R ε α}

theorem issues_pure (a : α) : (pure a : Program C R ε α).Issues P :=
  trivial

theorem issues_throw (e : ε) : (throw e : Program C R ε α).Issues P :=
  trivial

theorem issues_issue {c : C} (hc : P c) : (issue c : Program C R ε (R c)).Issues P :=
  ⟨hc, fun _ => trivial⟩

theorem Issues.bind {f : α → Program C R ε β} (hp : p.Issues P) (hf : ∀ a, (f a).Issues P) :
    (p >>= f).Issues P := by
  induction p with
  | ret a => exact hf a
  | raise e => trivial
  | call c next ih => exact ⟨hp.1, fun r => ih r (hp.2 r)⟩

theorem Issues.mono {P' : C → Prop} (hp : p.Issues P) (h : ∀ c, P c → P' c) : p.Issues P' := by
  induction p with
  | ret a => trivial
  | raise e => trivial
  | call c next ih => exact ⟨h c hp.1, fun r => ih r (hp.2 r)⟩

theorem Issues.tryCatch {handler : ε → Program C R ε α} (hp : p.Issues P)
    (hh : ∀ e, (handler e).Issues P) : (MonadExcept.tryCatch p handler).Issues P := by
  induction p with
  | ret a => trivial
  | raise e => exact hh e
  | call c next ih => exact ⟨hp.1, fun r => ih r (hp.2 r)⟩

variable {H : Handler C R W I} {w w' : W} {is : Nat → I}

/-- Commands that are allowed wherever `Q` holds of the history, and keep it. -/
theorem Issues.obeys {admits : (c : C) → R c → Prop} {allows : History C R → C → Prop}
    {Q : History C R → Prop} {h : History C R} (hp : p.Issues P)
    (hallows : ∀ h c, P c → Q h → allows h c) (hkeeps : ∀ h c r, P c → Q h → Q (⟨c, r⟩ :: h))
    (hQ : Q h) : p.Obeys admits allows (fun h _ => Q h) h := by
  induction p generalizing h with
  | ret a => exact hQ
  | raise e => exact hQ
  | call c next ih =>
    exact ⟨hallows h c hp.1 hQ, fun r _ => ih r (hp.2 r) (hkeeps h c r hp.1 hQ)⟩

/-- A run preserves what its commands preserve. -/
theorem Issues.run_preserves {Q : W → Prop} (hp : p.Issues P)
    (hexec : ∀ i w c, P c → Q w → Q (H.exec i w c).2) (hw : Q w) : Q (p.run H w is).world := by
  induction p generalizing w is with
  | ret a => exact hw
  | raise e => exact hw
  | call c next ih => exact ih _ (hp.2 _) (hexec _ _ _ hp.1 hw)

/-- Worlds that the commands of a program cannot tell apart give the same run. -/
theorem Issues.run_congr {Alike : W → W → Prop} (hp : p.Issues P)
    (hexec : ∀ i w w' c, P c → Alike w w' →
      (H.exec i w c).1 = (H.exec i w' c).1 ∧ Alike (H.exec i w c).2 (H.exec i w' c).2)
    (hw : Alike w w') :
    (p.run H w is).outcome = (p.run H w' is).outcome ∧
      (p.run H w is).inputs = (p.run H w' is).inputs ∧
      Alike (p.run H w is).world (p.run H w' is).world := by
  induction p generalizing w w' is with
  | ret a => exact ⟨rfl, rfl, hw⟩
  | raise e => exact ⟨rfl, rfl, hw⟩
  | call c next ih =>
    obtain ⟨hreply, hworld⟩ := hexec (is 0) w w' c hp.1 hw
    simp only [run]
    rw [← hreply]
    exact ih _ (hp.2 _) hworld

/-- A program without commands has one outcome, on every handler. -/
theorem Issues.run_eq (hp : p.Issues fun _ => False) : ∃ o : Except ε α,
    ∀ {W I : Type} (H : Handler C R W I) (w : W) (is : Nat → I), p.run H w is = ⟨o, w, is⟩ := by
  cases p with
  | ret a => exact ⟨.ok a, fun _ _ _ => rfl⟩
  | raise e => exact ⟨.error e, fun _ _ _ => rfl⟩
  | call c next => exact hp.1.elim

/-- A program without commands that returns is its result. -/
theorem Issues.eq_pure (hp : p.Issues fun _ => False) {a : α}
    (h : (p.run H w is).outcome = .ok a) : p = pure a := by
  cases p with
  | ret a' =>
    cases h
    rfl
  | raise e => cases h
  | call c next => exact hp.1.elim

end Issues

/-! ## Commands issued once -/

/-- The program issues a command of `P` once at most. -/
def IssuesOnce (P : C → Prop) : Program C R ε α → Prop
  | .ret _ => True
  | .raise _ => True
  | .call c next =>
    (P c → ∀ r, (next r).Issues (¬ P ·)) ∧ (¬ P c → ∀ r, (next r).IssuesOnce P)

section IssuesOnce

variable {P : C → Prop} {p : Program C R ε α}

theorem Issues.once (hp : p.Issues (¬ P ·)) : p.IssuesOnce P := by
  induction p with
  | ret a => trivial
  | raise e => trivial
  | call c next ih => exact ⟨fun hc => absurd hc hp.1, fun _ r => ih r (hp.2 r)⟩

/-- What comes before a command that is issued once does not issue it. -/
theorem Issues.bind_once {f : α → Program C R ε β} (hp : p.Issues (¬ P ·))
    (hf : ∀ a, (f a).IssuesOnce P) : (p >>= f).IssuesOnce P := by
  induction p with
  | ret a => exact hf a
  | raise e => trivial
  | call c next ih => exact ⟨fun hc => absurd hc hp.1, fun _ r => ih r (hp.2 r)⟩

/-- A command, and then none of its kind. -/
theorem issuesOnce_issue_bind {c : C} {f : R c → Program C R ε β}
    (hf : ∀ r, (f r).Issues (¬ P ·)) : (issue c >>= f).IssuesOnce P :=
  ⟨fun _ => hf, fun _ r => (hf r).once⟩

end IssuesOnce

end Program

end Foundation
