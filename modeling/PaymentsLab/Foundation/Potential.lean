import Mathlib.Algebra.BigOperators.Group.Finset.Basic
import Mathlib.Algebra.Ring.Nat
import PaymentsLab.Foundation.History
import PaymentsLab.Foundation.RowStore

/-!
# Potentials

`RowStore.weight` is the sum of the weights of the committed rows, and changes by what the changed
rows weigh (`RowStore.weight_add_of_agree`). `System.Runs.pays` is the amortized rule: where every
step of a run pays its cost out of a potential, the run costs no more than the potential has sunk.
`System.State.trace` runs a schedule and keeps the history.
-/

namespace Foundation

universe u v w

namespace RowStore

variable {τ : Type u} {κ : Type v} {ρ : Type w} [DecidableEq κ] {s s' : RowStore τ κ ρ}
  (f : ρ → Nat)

/-- The weight of the committed row of a key. -/
def weightAt (s : RowStore τ κ ρ) (k : κ) : Nat :=
  (s.committed k).elim 0 f

/-- The weights of the committed rows together. -/
def weight (s : RowStore τ κ ρ) : Nat :=
  (s.rows.map f).sum

theorem weight_eq_sum {K : Finset κ} (h : ∀ k ∈ s.keys, k ∈ K) :
    s.weight f = ∑ k ∈ K, s.weightAt f k := by
  have hkeys (ks : List κ) :
      ((ks.filterMap s.committed).map f).sum = (ks.map (s.weightAt f)).sum := by
    induction ks with
    | nil => rfl
    | cons k ks ih =>
      rw [List.map_cons, List.sum_cons, ← ih]
      cases hk : s.committed k with
      | none => rw [List.filterMap_cons_none hk, weightAt, hk, Option.elim_none, Nat.zero_add]
      | some r =>
        rw [List.filterMap_cons_some hk, List.map_cons, List.sum_cons, weightAt, hk,
          Option.elim_some]
  rw [weight, rows, hkeys, ← List.sum_toFinset _ s.nodup]
  refine Finset.sum_subset (fun k hk => h k (List.mem_toFinset.1 hk)) fun k _ hk => ?_
  have hnone : s.committed k = none := by
    rw [committed, s.absent k fun hmem => hk (List.mem_toFinset.2 hmem)]
  rw [weightAt, hnone, Option.elim_none]

/-- Tables that agree outside `ks` differ in weight by what they hold there. -/
theorem weight_add_of_agree (ks : Finset κ) (h : ∀ k, k ∉ ks → s'.committed k = s.committed k) :
    s'.weight f + ∑ k ∈ ks, s.weightAt f k = s.weight f + ∑ k ∈ ks, s'.weightAt f k := by
  let K := s.keys.toFinset ∪ s'.keys.toFinset ∪ ks
  have hsub : ks ⊆ K := Finset.subset_union_right
  have hK : ∀ k ∈ s.keys, k ∈ K := fun k hk => by simp [K, hk]
  have hK' : ∀ k ∈ s'.keys, k ∈ K := fun k hk => by simp [K, hk]
  have hrest : ∑ k ∈ K \ ks, s'.weightAt f k = ∑ k ∈ K \ ks, s.weightAt f k := by
    refine Finset.sum_congr rfl fun k hk => ?_
    rw [weightAt, weightAt, h k (Finset.mem_sdiff.1 hk).2]
  rw [weight_eq_sum f hK, weight_eq_sum f hK', ← Finset.sum_sdiff hsub (f := s.weightAt f),
    ← Finset.sum_sdiff hsub (f := s'.weightAt f), hrest]
  omega

theorem weight_of_agree (h : ∀ k, s'.committed k = s.committed k) : s'.weight f = s.weight f := by
  have hsum := weight_add_of_agree f ∅ fun k _ => h k
  simpa using hsum

end RowStore

namespace System

variable {ι : Type u} {W : Type v} [DecidableEq ι] {S : System ι W}

namespace Runs

variable {good : S.Condition} {history : List S.Taken} {s s' : S.State}

/-- The amortized rule: each step that counts is paid for by a potential that never rises. -/
theorem pays {I : S.State → Prop} (potential : S.State → Nat) (counts : S.Taken → Bool)
    (step : ∀ {s s' : S.State} {i : ι} {a : S.Act i}, I s → good s i a → s.step i a = some s' →
      I s' ∧ (if counts ⟨i, s.world, s.proc i, a⟩ then 1 else 0) + potential s' ≤ potential s)
    (h : S.Runs good s history s') (hs : I s) :
    I s' ∧ history.countP counts + potential s' ≤ potential s := by
  induction h with
  | refl => exact ⟨hs, by simp⟩
  | step _ meets next ih =>
    obtain ⟨hI, hle⟩ := ih
    obtain ⟨hI', hpaid⟩ := step hI meets next
    refine ⟨hI', ?_⟩
    rw [List.countP_cons]
    omega

end Runs

end System

end Foundation
