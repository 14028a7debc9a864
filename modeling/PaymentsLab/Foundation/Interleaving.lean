import Mathlib.Logic.Function.Basic

/-!
# Processes interleaved over one shared world

A `System` is a family of sequential processes, indexed by an arbitrary type, that act on one
shared world. A step names the process and the action it takes, and is undefined where the action
is not enabled (the process is elsewhere in its program, or it is blocked).

Runs are taken under a *guard*: a condition that every step of the run meets in the state it is
taken from. The guard `anyStep` is no condition at all. `Reaches.invariant` is the induction rule
over runs; `forall_step` splits the preservation of a family of local assertions into the
assertion of the process that moved and the assertions of the others (interference freedom).
-/

namespace Foundation

universe u v

/-- Sequential processes over one shared world. -/
structure System (ι : Type u) (W : Type v) where
  Local : ι → Type v
  Act : ι → Type v
  step : (i : ι) → W → Local i → Act i → Option (W × Local i)

variable {ι : Type u} {W : Type v}

namespace System

/-- The shared world together with the local state of every process. -/
structure State (S : System ι W) where
  world : W
  proc : (i : ι) → S.Local i

/-- A condition on steps: the process, the shared world and its local state before the step, and
the action. -/
def Guard (S : System ι W) : Type (max u v) :=
  (i : ι) → W → S.Local i → S.Act i → Prop

/-- No condition. -/
def anyStep (S : System ι W) : S.Guard :=
  fun _ _ _ _ => True

instance (S : System ι W) (i : ι) (w : W) (l : S.Local i) (a : S.Act i) :
    Decidable (S.anyStep i w l a) :=
  inferInstanceAs (Decidable True)

variable [DecidableEq ι]

namespace State

variable {S : System ι W}

/-- Process `i` takes action `a`. -/
def step (s : S.State) (i : ι) (a : S.Act i) : Option S.State :=
  (S.step i s.world (s.proc i) a).map fun r => ⟨r.1, Function.update s.proc i r.2⟩

theorem step_eq_some {s s' : S.State} {i : ι} {a : S.Act i} :
    s.step i a = some s' ↔
      ∃ w l, S.step i s.world (s.proc i) a = some (w, l) ∧
        s' = ⟨w, Function.update s.proc i l⟩ := by
  unfold step
  rw [Option.map_eq_some_iff]
  constructor
  · rintro ⟨⟨w, l⟩, h, rfl⟩
    exact ⟨w, l, h, rfl⟩
  · rintro ⟨w, l, h, rfl⟩
    exact ⟨⟨w, l⟩, h, rfl⟩

/-- A step leaves the local state of every other process alone. -/
theorem step_proc_ne {s s' : S.State} {i j : ι} {a : S.Act i} (h : s.step i a = some s')
    (hj : j ≠ i) : s'.proc j = s.proc j := by
  obtain ⟨w, l, -, rfl⟩ := step_eq_some.1 h
  exact Function.update_of_ne hj l s.proc

/-- The moving process ends in the local state its own program says. -/
theorem step_self {s s' : S.State} {i : ι} {a : S.Act i} (h : s.step i a = some s') :
    S.step i s.world (s.proc i) a = some (s'.world, s'.proc i) := by
  obtain ⟨w, l, hw, rfl⟩ := step_eq_some.1 h
  simpa using hw

/-- Local assertions after a step: the one of the process that moved is re-established by its own
program, each other one is stable under the change of the world. -/
theorem forall_step {L : (i : ι) → W → S.Local i → Prop} {s s' : S.State} {i : ι} {a : S.Act i}
    (h : s.step i a = some s') (hs : ∀ j, L j s.world (s.proc j))
    (own : S.step i s.world (s.proc i) a = some (s'.world, s'.proc i) →
      L i s'.world (s'.proc i))
    (other : ∀ j, j ≠ i → L j s.world (s.proc j) → L j s'.world (s.proc j)) :
    ∀ j, L j s'.world (s'.proc j) := by
  intro j
  by_cases hj : j = i
  · subst hj
    exact own (step_self h)
  · rw [step_proc_ne h hj]
    exact other j hj (hs j)

/-- A schedule run from `s`; undefined where a step of it is not enabled or fails the check. -/
def exec (check : (i : ι) → W → S.Local i → S.Act i → Bool) :
    List (Σ i, S.Act i) → S.State → Option S.State
  | [], s => some s
  | ⟨i, a⟩ :: rest, s =>
    if check i s.world (s.proc i) a then (s.step i a).bind (exec check rest) else none

/-- A schedule run from `s` under a guard that can be decided. -/
def run (good : S.Guard) [∀ i w l a, Decidable (good i w l a)] (schedule : List (Σ i, S.Act i))
    (s : S.State) : Option S.State :=
  exec (fun i w l a => decide (good i w l a)) schedule s

end State

/-- `s'` can be reached from `s` by steps that all meet the guard. -/
inductive Reaches (S : System ι W) (good : S.Guard) (s : S.State) : S.State → Prop
  | refl : Reaches S good s s
  | step {s' s'' : S.State} {i : ι} {a : S.Act i} (run : Reaches S good s s')
      (meets : good i s'.world (s'.proc i) a) (next : s'.step i a = some s'') :
      Reaches S good s s''

namespace Reaches

variable {S : System ι W} {good good' : S.Guard} {s s' s'' : S.State}

theorem trans (h : S.Reaches good s s') (h' : S.Reaches good s' s'') :
    S.Reaches good s s'' := by
  induction h' with
  | refl => exact h
  | step _ meets next ih => exact .step ih meets next

/-- A run under a guard is a run under every weaker guard. -/
theorem mono (hgood : ∀ i w l a, good i w l a → good' i w l a) (h : S.Reaches good s s') :
    S.Reaches good' s s' := by
  induction h with
  | refl => exact .refl
  | step _ meets next ih => exact .step ih (hgood _ _ _ _ meets) next

/-- The invariant rule: what every guarded step preserves holds along every guarded run. -/
theorem invariant {I : S.State → Prop}
    (preserved : ∀ {s s' : S.State} {i : ι} {a : S.Act i}, I s →
      good i s.world (s.proc i) a → s.step i a = some s' → I s')
    (h : S.Reaches good s s') (hs : I s) : I s' := by
  induction h with
  | refl => exact hs
  | step _ meets next ih => exact preserved ih meets next

theorem of_exec {check : (i : ι) → W → S.Local i → S.Act i → Bool}
    (hcheck : ∀ i w l a, check i w l a = true → good i w l a) {schedule : List (Σ i, S.Act i)}
    (h : State.exec check schedule s = some s') : S.Reaches good s s' := by
  induction schedule generalizing s with
  | nil =>
    cases h
    exact .refl
  | cons first rest ih =>
    obtain ⟨i, a⟩ := first
    simp only [State.exec] at h
    split at h
    · next hgood =>
      obtain ⟨s₁, hstep, hrest⟩ := Option.bind_eq_some_iff.1 h
      exact (Reaches.step .refl (hcheck i _ _ a hgood) hstep).trans (ih hrest)
    · cases h

/-- A schedule that runs to its end is a run. -/
theorem of_run [∀ i w l a, Decidable (good i w l a)] {schedule : List (Σ i, S.Act i)}
    (h : State.run good schedule s = some s') : S.Reaches good s s' :=
  of_exec (fun _ _ _ _ => of_decide_eq_true) h

end Reaches

end System

end Foundation
