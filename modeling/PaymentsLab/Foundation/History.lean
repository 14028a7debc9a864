import PaymentsLab.Foundation.Interleaving

/-!
# Runs with their history

`Runs` is reachability together with the list of the steps taken, the last one first, under a
condition that may look at the whole state. A quantity that the states do not keep, such as how
often something has happened, is a function of the history; `Runs.invariant` is the induction rule
for states and histories together.
-/

namespace Foundation

universe u v

namespace System

variable {ι : Type u} {W : Type v}

/-- A step as it was taken: the process, the world and the local state it was taken from, and the
action. -/
structure Taken (S : System ι W) where
  process : ι
  world : W
  before : S.Local process
  act : S.Act process

/-- A condition on steps that sees every process: the state before the step, the process and its
action. -/
def Condition (S : System ι W) : Type (max u v) :=
  S.State → (i : ι) → S.Act i → Prop

/-- A guard, as a condition. -/
def Guard.condition {S : System ι W} (good : S.Guard) : S.Condition :=
  fun s i a => good i s.world (s.proc i) a

variable [DecidableEq ι]

/-- `s'` is reached from `s` by the steps of the history, all of which meet the condition. -/
inductive Runs (S : System ι W) (good : S.Condition) (s : S.State) :
    List S.Taken → S.State → Prop
  | refl : Runs S good s [] s
  | step {history : List S.Taken} {s' s'' : S.State} {i : ι} {a : S.Act i}
      (run : Runs S good s history s') (meets : good s' i a) (next : s'.step i a = some s'') :
      Runs S good s (⟨i, s'.world, s'.proc i, a⟩ :: history) s''

namespace Runs

variable {S : System ι W} {good good' : S.Condition} {guard : S.Guard} {history : List S.Taken}
  {s s' : S.State}

/-- The steps of a run meet a guard that follows from its condition. -/
theorem reaches (hguard : ∀ s i a, good s i a → guard i s.world (s.proc i) a)
    (h : S.Runs good s history s') : S.Reaches guard s s' := by
  induction h with
  | refl => exact .refl
  | step _ meets next ih => exact .step ih (hguard _ _ _ meets) next

/-- Every run has a history. -/
theorem exists_of_reaches (h : S.Reaches guard s s') :
    ∃ history, S.Runs guard.condition s history s' := by
  induction h with
  | refl => exact ⟨[], .refl⟩
  | step _ meets next ih =>
    obtain ⟨history, hrun⟩ := ih
    exact ⟨_, .step hrun meets next⟩

/-- The invariant rule for states and histories. -/
theorem invariant {I : List S.Taken → S.State → Prop}
    (preserved : ∀ {history : List S.Taken} {s s' : S.State} {i : ι} {a : S.Act i}, I history s →
      good s i a → s.step i a = some s' → I (⟨i, s.world, s.proc i, a⟩ :: history) s')
    (h : S.Runs good s history s') (hs : I [] s) : I history s' := by
  induction h with
  | refl => exact hs
  | step _ meets next ih => exact preserved ih meets next

/-- A condition that holds along a run because of an invariant of it. -/
theorem strengthen {I : S.State → Prop}
    (preserved : ∀ {s s' : S.State} {i : ι} {a : S.Act i}, I s → good s i a →
      s.step i a = some s' → good' s i a ∧ I s')
    (h : S.Runs good s history s') (hs : I s) : S.Runs good' s history s' ∧ I s' := by
  induction h with
  | refl => exact ⟨.refl, hs⟩
  | step _ meets next ih =>
    obtain ⟨hgood, hI⟩ := preserved ih.2 meets next
    exact ⟨.step ih.1 hgood next, hI⟩

end Runs

variable {S : System ι W}

/-- A schedule run from `s`, with its history; undefined where a step of it is not enabled or fails
the check. -/
def State.trace (check : (i : ι) → W → S.Local i → S.Act i → Bool) :
    List (Σ i, S.Act i) → List S.Taken → S.State → Option (List S.Taken × S.State)
  | [], history, s => some (history, s)
  | ⟨i, a⟩ :: rest, history, s =>
    if check i s.world (s.proc i) a then
      (s.step i a).bind (trace check rest (⟨i, s.world, s.proc i, a⟩ :: history))
    else none

theorem Runs.of_trace {check : (i : ι) → W → S.Local i → S.Act i → Bool} {good : S.Guard}
    (hcheck : ∀ i w l a, check i w l a = true → good i w l a)
    {schedule : List (Σ i, S.Act i)} {history history' : List S.Taken} {s₀ s s' : S.State}
    (h : State.trace check schedule history s = some (history', s'))
    (hrun : S.Runs good.condition s₀ history s) : S.Runs good.condition s₀ history' s' := by
  induction schedule generalizing history s with
  | nil =>
    cases h
    exact hrun
  | cons first rest ih =>
    obtain ⟨i, a⟩ := first
    simp only [State.trace] at h
    split at h
    · next hgood =>
      obtain ⟨s₁, hstep, hrest⟩ := Option.bind_eq_some_iff.1 h
      exact ih hrest (.step hrun (hcheck i _ _ a hgood) hstep)
    · cases h

end System

end Foundation
