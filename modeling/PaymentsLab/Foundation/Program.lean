import PaymentsLab.Foundation.Interleaving

/-!
# Programs that issue commands

A `Program` is the tree of the commands a sequential program issues: it goes on with the reply to
each of them, and may raise exceptions and catch them. A `Handler` executes commands on a world;
`Handler.system` interleaves any number of programs over one world, command by command, and keeps
the history of each.

`Program.Obeys` is the logic of programs under interference: whatever the replies are (as long as
they are admitted), every command is allowed by the history before it, and the outcome meets the
postcondition. It has one rule for each way to build a program, and `Handler.obeys_next` carries it
along a run.
-/

namespace Foundation

/-- A program over commands `C` with replies `R`, exceptions `ε` and results `α`. -/
inductive Program (C : Type) (R : C → Type) (ε α : Type)
  | ret (a : α)
  | raise (e : ε)
  | call (c : C) (next : R c → Program C R ε α)

variable {C : Type} {R : C → Type} {ε α β : Type}

namespace Program

/-- Sequencing; an exception skips the rest. -/
def bind : Program C R ε α → (α → Program C R ε β) → Program C R ε β
  | .ret a, f => f a
  | .raise e, _ => .raise e
  | .call c next, f => .call c fun r => (next r).bind f

/-- `try … except`: the handler takes every exception, and may raise it again. -/
def tryCatch : Program C R ε α → (ε → Program C R ε α) → Program C R ε α
  | .ret a, _ => .ret a
  | .raise e, h => h e
  | .call c next, h => .call c fun r => (next r).tryCatch h

/-- One command, with its reply as the result. -/
def issue (c : C) : Program C R ε (R c) :=
  .call c .ret

instance : Monad (Program C R ε) where
  pure := .ret
  bind := bind

instance : MonadExceptOf ε (Program C R ε) where
  throw := .raise
  tryCatch := tryCatch

instance : LawfulMonad (Program C R ε) :=
  LawfulMonad.mk' _
    (fun p => by
      induction p with
      | ret a => rfl
      | raise e => rfl
      | call c next ih => exact congrArg (call c) (funext ih))
    (fun _ _ => rfl)
    (fun p f g => by
      induction p with
      | ret a => rfl
      | raise e => rfl
      | call c next ih => exact congrArg (call c) (funext ih))

/-! ## Histories -/

/-- The commands a program has issued, with their replies, the last one first. -/
abbrev History (C : Type) (R : C → Type) : Type :=
  List (Σ c, R c)

/-- Every command of the program is allowed by the history before it, and the outcome meets the
postcondition, for all replies that are admitted. -/
def Obeys (admits : (c : C) → R c → Prop) (allows : History C R → C → Prop)
    (post : History C R → Except ε α → Prop) : Program C R ε α → History C R → Prop
  | .ret a, h => post h (.ok a)
  | .raise e, h => post h (.error e)
  | .call c next, h =>
    allows h c ∧ ∀ r, admits c r → Obeys admits allows post (next r) (⟨c, r⟩ :: h)

section Obeys

variable {admits : (c : C) → R c → Prop} {allows : History C R → C → Prop}
  {post : History C R → Except ε α → Prop} {post' : History C R → Except ε β → Prop}
  {h : History C R}

@[simp] theorem obeys_pure {a : α} :
    (pure a : Program C R ε α).Obeys admits allows post h ↔ post h (.ok a) :=
  Iff.rfl

@[simp] theorem obeys_throw {e : ε} :
    (throw e : Program C R ε α).Obeys admits allows post h ↔ post h (.error e) :=
  Iff.rfl

@[simp] theorem obeys_issue {c : C} {post : History C R → Except ε (R c) → Prop} :
    (issue c : Program C R ε (R c)).Obeys admits allows post h ↔
      allows h c ∧ ∀ r, admits c r → post (⟨c, r⟩ :: h) (.ok r) :=
  Iff.rfl

/-- Rule of consequence. -/
theorem Obeys.mono {allows' : History C R → C → Prop} {post' : History C R → Except ε α → Prop}
    {p : Program C R ε α} (hp : p.Obeys admits allows post h)
    (hallows : ∀ h c, allows h c → allows' h c) (hpost : ∀ h o, post h o → post' h o) :
    p.Obeys admits allows' post' h := by
  induction p generalizing h with
  | ret a => exact hpost _ _ hp
  | raise e => exact hpost _ _ hp
  | call c next ih => exact ⟨hallows _ _ hp.1, fun r hr => ih r (hp.2 r hr)⟩

/-- Rule of sequencing. -/
theorem obeys_bind {p : Program C R ε α} {f : α → Program C R ε β} :
    (p >>= f).Obeys admits allows post' h ↔
      p.Obeys admits allows (fun h o =>
        match o with
        | .ok a => (f a).Obeys admits allows post' h
        | .error e => post' h (.error e)) h := by
  induction p generalizing h with
  | ret a => exact Iff.rfl
  | raise e => exact Iff.rfl
  | call c next ih =>
    refine and_congr_right fun _ => forall_congr' fun r => imp_congr_right fun _ => ?_
    exact ih r

/-- Rule of `try`. -/
theorem obeys_tryCatch {p : Program C R ε α} {handler : ε → Program C R ε α} :
    (MonadExcept.tryCatch p handler).Obeys admits allows post h ↔
      p.Obeys admits allows (fun h o =>
        match o with
        | .ok a => post h (.ok a)
        | .error e => (handler e).Obeys admits allows post h) h := by
  induction p generalizing h with
  | ret a => exact Iff.rfl
  | raise e => exact Iff.rfl
  | call c next ih =>
    refine and_congr_right fun _ => forall_congr' fun r => imp_congr_right fun _ => ?_
    exact ih r

end Obeys

end Program

/-! ## Interleaving -/

/-- How a world executes commands; `I` is what a step takes from outside: clock readings, faults. -/
structure Handler (C : Type) (R : C → Type) (W I : Type) where
  exec : I → W → (c : C) → R c × W

/-- A program on its way: what it has done, and what is left of it. -/
structure Process (C : Type) (R : C → Type) (ε α : Type) where
  history : Program.History C R
  rest : Program C R ε α

variable {W I : Type}

/-- The command a process issues next. -/
def Process.next? (p : Process C R ε α) : Option C :=
  match p.rest with
  | .call c _ => some c
  | _ => none

/-- One command of a process. -/
def Handler.step (H : Handler C R W I) (w : W) (p : Process C R ε α) (i : I) :
    Option (W × Process C R ε α) :=
  match p.rest with
  | .call c next =>
    let r := H.exec i w c
    some (r.2, ⟨⟨c, r.1⟩ :: p.history, next r.1⟩)
  | _ => none

/-- Any number of processes over one world. -/
def Handler.system (H : Handler C R W I) (ι : Type) (ε α : Type) : System ι W where
  Local _ := Process C R ε α
  Act _ := I
  step _ := H.step

namespace Process

variable {H : Handler C R W I} {w w' : W} {p p' : Process C R ε α} {i : I}

/-- A step executes the next command and records its reply. -/
theorem step_eq_some (h : H.step w p i = some (w', p')) :
    ∃ c next, p.rest = .call c next ∧ w' = (H.exec i w c).2 ∧
      p' = ⟨⟨c, (H.exec i w c).1⟩ :: p.history, next (H.exec i w c).1⟩ := by
  unfold Handler.step at h
  split at h
  · next c next hrest =>
    cases h
    exact ⟨c, next, hrest, rfl, rfl⟩
  · cases h

/-- A process that obeys goes on to obey, if the reply is one that is admitted. -/
theorem obeys_step {admits : (c : C) → R c → Prop} {allows : Program.History C R → C → Prop}
    {post : Program.History C R → Except ε α → Prop}
    (hp : p.rest.Obeys admits allows post p.history) {c : C} {next : R c → Program C R ε α}
    (hrest : p.rest = .call c next) :
    allows p.history c ∧ ∀ r, admits c r →
      (next r).Obeys admits allows post (⟨c, r⟩ :: p.history) := by
  rw [hrest] at hp
  exact hp

end Process

namespace Handler

variable {ι : Type} [DecidableEq ι]

/-- A process has executed its next command and recorded the reply, and the others are where they
were. -/
structure Stepped (H : Handler C R W I) (s s' : (H.system ι ε α).State) (n : ι) (i : I) (c : C) :
    Prop where
  next : Process.next? (s.proc n) = some c
  world : s'.world = (H.exec i s.world c).2
  history : Process.history (s'.proc n) =
    ⟨c, (H.exec i s.world c).1⟩ :: Process.history (s.proc n)
  other : ∀ m, m ≠ n → s'.proc m = s.proc m

/-- A step of processes that obey: the command is allowed, and they go on to obey if the reply is
one that is admitted. -/
theorem obeys_next {H : Handler C R W I} {s s' : (H.system ι ε α).State} {n : ι} {i : I}
    {admits : (c : C) → R c → Prop} {allows : ι → Program.History C R → C → Prop}
    {post : ι → Program.History C R → Except ε α → Prop}
    (hobeys : ∀ m, (Process.rest (s.proc m)).Obeys admits (allows m) (post m)
      (Process.history (s.proc m))) (hstep : s.step n i = some s') :
    ∃ c, H.Stepped s s' n i c ∧ allows n (Process.history (s.proc n)) c ∧
      (admits c (H.exec i s.world c).1 → ∀ m, (Process.rest (s'.proc m)).Obeys admits (allows m)
        (post m) (Process.history (s'.proc m))) := by
  have hother (m : ι) (hm : m ≠ n) : s'.proc m = s.proc m := System.State.step_proc_ne hstep hm
  have hown : H.step s.world (s.proc n) i = some (s'.world, s'.proc n) :=
    System.State.step_self hstep
  obtain ⟨c, next, hrest, hworld, hproc⟩ := Process.step_eq_some hown
  obtain ⟨hallows, hnext⟩ := Process.obeys_step (hobeys n) hrest
  have hissued : Process.next? (s.proc n) = some c := by
    unfold Process.next?
    rw [hrest]
  refine ⟨c, ⟨hissued, hworld, congrArg Process.history hproc, hother⟩, hallows,
    fun hadmits m => ?_⟩
  by_cases hm : m = n
  · subst hm
    rw [hproc]
    exact hnext _ hadmits
  · rw [hother m hm]
    exact hobeys m

end Handler

end Foundation
