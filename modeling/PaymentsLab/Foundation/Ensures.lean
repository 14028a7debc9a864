import PaymentsLab.Foundation.Sequential

/-!
# Weakest preconditions of runs

`Program.Ensures` is the weakest precondition of a program on a world it has to itself: however the
inputs are chosen, as long as every step meets a condition, the run ends in the postcondition. It
has one rule for each way to build a program. `Program.Meets` is the condition on a given run, and
`Ensures.run` connects the two. `inOrder` runs programs one after the other, and
`Ensures.inOrder` is its invariant rule.
-/

namespace Foundation

namespace Program

variable {C : Type} {R : C → Type} {ε α β W I : Type}

/-- Every step of the run meets the condition, which sees the input, the world and the command. -/
def Meets (H : Handler C R W I) (good : I → W → C → Prop) :
    Program C R ε α → W → (Nat → I) → Prop
  | .ret _, _, _ => True
  | .raise _, _, _ => True
  | .call c next, w, is =>
    good (is 0) w c ∧ Meets H good (next (H.exec (is 0) w c).1) (H.exec (is 0) w c).2
      fun n => is (n + 1)

def Meets.decide {H : Handler C R W I} {good : I → W → C → Prop}
    [∀ i w c, Decidable (good i w c)] :
    (p : Program C R ε α) → (w : W) → (is : Nat → I) → Decidable (p.Meets H good w is)
  | .ret _, _, _ => .isTrue trivial
  | .raise _, _, _ => .isTrue trivial
  | .call c next, w, is =>
    @instDecidableAnd _ _ (inferInstance : Decidable (good (is 0) w c))
      (Meets.decide (next (H.exec (is 0) w c).1) (H.exec (is 0) w c).2 fun n => is (n + 1))

instance {H : Handler C R W I} {good : I → W → C → Prop} [∀ i w c, Decidable (good i w c)]
    (p : Program C R ε α) (w : W) (is : Nat → I) : Decidable (p.Meets H good w is) :=
  Meets.decide p w is

/-- Inputs that meet a condition, wherever they are taken. -/
theorem Meets.of_forall {H : Handler C R W I} {good : I → Prop} {p : Program C R ε α} {w : W}
    {is : Nat → I} (h : ∀ n, good (is n)) : p.Meets H (fun i _ _ => good i) w is := by
  induction p generalizing w is with
  | ret a => trivial
  | raise e => trivial
  | call c next ih => exact ⟨h 0, ih _ fun n => h (n + 1)⟩

theorem Meets.and_forall {H : Handler C R W I} {good : I → W → C → Prop} {goodInput : I → Prop}
    {p : Program C R ε α} {w : W} {is : Nat → I} (hp : p.Meets H good w is)
    (h : ∀ n, goodInput (is n)) : p.Meets H (fun i w c => goodInput i ∧ good i w c) w is := by
  induction p generalizing w is with
  | ret a => trivial
  | raise e => trivial
  | call c next ih => exact ⟨⟨h 0, hp.1⟩, ih _ hp.2 fun n => h (n + 1)⟩

/-- The parts of a run that meets the condition. -/
theorem Meets.bind {H : Handler C R W I} {good : I → W → C → Prop} {p : Program C R ε α}
    {f : α → Program C R ε β} {w : W} {is : Nat → I} (h : (p >>= f).Meets H good w is) :
    p.Meets H good w is ∧ ∀ a, (p.run H w is).outcome = .ok a →
      (f a).Meets H good (p.run H w is).world (p.run H w is).inputs := by
  induction p generalizing w is with
  | ret a =>
    refine ⟨trivial, fun b hb => ?_⟩
    cases hb
    exact h
  | raise e =>
    refine ⟨trivial, fun b hb => ?_⟩
    cases hb
  | call c next ih => exact ⟨⟨h.1, (ih _ h.2).1⟩, (ih _ h.2).2⟩

/-- Every run whose steps meet the condition ends in the postcondition. -/
def Ensures (H : Handler C R W I) (good : I → W → C → Prop) (post : Except ε α → W → Prop) :
    Program C R ε α → W → Prop
  | .ret a, w => post (.ok a) w
  | .raise e, w => post (.error e) w
  | .call c next, w =>
    ∀ i, good i w c → Ensures H good post (next (H.exec i w c).1) (H.exec i w c).2

/-- A postcondition by cases: the one of a result, and the one of an exception. -/
def either (ok : α → W → Prop) (error : W → Prop) : Except ε α → W → Prop
  | .ok a, w => ok a w
  | .error _, w => error w

/-- What holds of the result, if there is one. -/
def IfReturned (P : α → Prop) : Except ε α → Prop
  | .ok a => P a
  | .error _ => True

theorem IfReturned.of_forall {P : α → Prop} (h : ∀ a, P a) : (o : Except ε α) → IfReturned P o
  | .ok a => h a
  | .error _ => trivial

/-- What holds of the exception, if there is one. -/
def IfRaised (P : ε → Prop) : Except ε α → Prop
  | .ok _ => True
  | .error e => P e

section Ensures

variable {H : Handler C R W I} {good : I → W → C → Prop} {post mid : Except ε α → W → Prop}
  {post' : Except ε β → W → Prop} {p : Program C R ε α} {w : W}

theorem Ensures.run {is : Nat → I} (hp : p.Ensures H good post w) (hmeets : p.Meets H good w is) :
    post (p.run H w is).outcome (p.run H w is).world := by
  induction p generalizing w is with
  | ret a => exact hp
  | raise e => exact hp
  | call c next ih => exact ih _ (hp _ hmeets.1) hmeets.2

@[simp] theorem ensures_pure {a : α} :
    (pure a : Program C R ε α).Ensures H good post w ↔ post (.ok a) w :=
  Iff.rfl

@[simp] theorem ensures_throw {e : ε} :
    (throw e : Program C R ε α).Ensures H good post w ↔ post (.error e) w :=
  Iff.rfl

@[simp] theorem ensures_issue {c : C} {post : Except ε (R c) → W → Prop} :
    (issue c : Program C R ε (R c)).Ensures H good post w ↔
      ∀ i, good i w c → post (.ok (H.exec i w c).1) (H.exec i w c).2 :=
  Iff.rfl

/-- Rule of sequencing. -/
theorem ensures_bind {f : α → Program C R ε β} :
    (p >>= f).Ensures H good post' w ↔
      p.Ensures H good (fun o w =>
        match o with
        | .ok a => (f a).Ensures H good post' w
        | .error e => post' (.error e) w) w := by
  induction p generalizing w with
  | ret a => exact Iff.rfl
  | raise e => exact Iff.rfl
  | call c next ih => exact forall_congr' fun i => imp_congr_right fun _ => ih _

/-- Rule of `try`. -/
theorem ensures_tryCatch {handler : ε → Program C R ε α} :
    (MonadExcept.tryCatch p handler).Ensures H good post w ↔
      p.Ensures H good (fun o w =>
        match o with
        | .ok a => post (.ok a) w
        | .error e => (handler e).Ensures H good post w) w := by
  induction p generalizing w with
  | ret a => exact Iff.rfl
  | raise e => exact Iff.rfl
  | call c next ih => exact forall_congr' fun i => imp_congr_right fun _ => ih _

/-- Rule of consequence. -/
theorem Ensures.mono (hp : p.Ensures H good mid w) (h : ∀ o w, mid o w → post o w) :
    p.Ensures H good post w := by
  induction p generalizing w with
  | ret a => exact h _ _ hp
  | raise e => exact h _ _ hp
  | call c next ih => exact fun i hi => ih _ (hp i hi)

/-- Rule of conjunction. -/
theorem Ensures.and (hp : p.Ensures H good mid w) (hp' : p.Ensures H good post w) :
    p.Ensures H good (fun o w => mid o w ∧ post o w) w := by
  induction p generalizing w with
  | ret a => exact ⟨hp, hp'⟩
  | raise e => exact ⟨hp, hp'⟩
  | call c next ih => exact fun i hi => ih _ (hp i hi) (hp' i hi)

/-- Sequencing, with what holds in between. -/
theorem Ensures.bind {f : α → Program C R ε β} (hp : p.Ensures H good mid w)
    (hok : ∀ a w, mid (.ok a) w → (f a).Ensures H good post' w)
    (herror : ∀ e w, mid (.error e) w → post' (.error e) w) :
    (p >>= f).Ensures H good post' w := by
  refine ensures_bind.2 (hp.mono fun o w ho => ?_)
  cases o with
  | ok a => exact hok a w ho
  | error e => exact herror e w ho

/-- Sequencing, where both parts keep an invariant. -/
theorem Ensures.seq {f : α → Program C R ε β} {Q : W → Prop} (hp : p.Ensures H good (fun _ => Q) w)
    (hf : ∀ a w, Q w → (f a).Ensures H good (fun _ => Q) w) :
    (p >>= f).Ensures H good (fun _ => Q) w :=
  hp.bind hf fun _ _ => id

/-- What holds after every outcome, by cases. -/
theorem Ensures.by_outcome {Q error : W → Prop} {ok : α → W → Prop}
    (hp : p.Ensures H good (fun _ => Q) w) (hok : ∀ a w, Q w → ok a w)
    (herror : ∀ w, Q w → error w) : p.Ensures H good (either ok error) w := by
  refine hp.mono fun o w hw => ?_
  cases o with
  | ok a => exact hok a w hw
  | error e => exact herror w hw

/-- Sequencing, where both parts leave the same after an exception. -/
theorem Ensures.bind_either {f : α → Program C R ε β} {ok : α → W → Prop} {ok' : β → W → Prop}
    {error : W → Prop} (hp : p.Ensures H good (either ok error) w)
    (hf : ∀ a w, ok a w → (f a).Ensures H good (either ok' error) w) :
    (p >>= f).Ensures H good (either ok' error) w :=
  hp.bind hf fun _ _ => id

/-- What the commands of a program preserve, its runs preserve. -/
theorem Issues.ensures {P : C → Prop} {Q : W → Prop} (hp : p.Issues P)
    (hexec : ∀ i w c, P c → good i w c → Q w → Q (H.exec i w c).2) (hw : Q w) :
    p.Ensures H good (fun _ => Q) w := by
  induction p generalizing w with
  | ret a => exact hw
  | raise e => exact hw
  | call c next ih => exact fun i hi => ih _ (hp.2 _) (hexec i w c hp.1 hi hw)

end Ensures

/-! ## Programs in order -/

/-- The program, whatever its outcome is. -/
def forget (p : Program C R ε α) : Program C R ε Unit :=
  MonadExcept.tryCatch (p >>= fun _ => pure ()) fun _ => pure ()

/-- Programs one after the other. An exception ends the program that raises it, and no other. -/
def inOrder : List (Program C R ε α) → Program C R ε Unit
  | [] => pure ()
  | p :: ps => do
    p.forget
    inOrder ps

section InOrder

variable {H : Handler C R W I} {good : I → W → C → Prop} {Q : W → Prop}

theorem Ensures.forget {p : Program C R ε α} {w : W} (hp : p.Ensures H good (fun _ => Q) w) :
    p.forget.Ensures H good (fun _ => Q) w := by
  refine ensures_tryCatch.2 (ensures_bind.2 (hp.mono fun o w ho => ?_))
  cases o <;> exact ho

/-- The invariant rule for programs in order. -/
theorem Ensures.inOrder {ps : List (Program C R ε α)} {w : W}
    (hps : ∀ p ∈ ps, ∀ w, Q w → p.Ensures H good (fun _ => Q) w) (hw : Q w) :
    (inOrder ps).Ensures H good (fun _ => Q) w := by
  induction ps generalizing w with
  | nil => exact hw
  | cons p ps ih =>
    have hrest (w : W) (hw : Q w) : (Program.inOrder ps).Ensures H good (fun _ => Q) w :=
      ih (fun p hp => hps p (List.mem_cons_of_mem _ hp)) hw
    have hfirst := (hps p List.mem_cons_self w hw).forget
    exact hfirst.bind (fun _ w => hrest w) fun _ _ => id

end InOrder

end Program

end Foundation
