import Mathlib.Data.List.Forall2
import Mathlib.Data.List.Perm.Subperm

/-!
# Lists matched into lists

`List.SublistForall₂ R as bs` matches every member of `as` with one of `bs`, in order. What is
matched can be thinned out and put in another order (`exists_perm_sublistForall₂`), and the members
of one kind are no more than those they are matched with (`countP_le_of_sublistForall₂`).
-/

namespace Foundation

open List

variable {α β : Type} {R : α → β → Prop} {as as' : List α} {bs : List β}

/-- Every member of the second list has its match. -/
theorem exists_mem_of_forall₂ {b : β} (h : Forall₂ R as bs) (hb : b ∈ bs) : ∃ a ∈ as, R a b := by
  induction h with
  | nil => cases hb
  | @cons a _ as _ hab _ ih =>
    rcases mem_cons.1 hb with rfl | hb
    · exact ⟨a, mem_cons_self, hab⟩
    · obtain ⟨a', ha', hab'⟩ := ih hb
      exact ⟨a', mem_cons_of_mem a ha', hab'⟩

theorem sublistForall₂_of_sublist (h : SublistForall₂ R as bs) (hsublist : as' <+ as) :
    SublistForall₂ R as' bs := by
  induction h generalizing as' with
  | nil =>
    rw [eq_nil_of_sublist_nil hsublist]
    exact .nil
  | cons hab _ ih =>
    cases hsublist with
    | cons _ hsublist => exact .cons_right (ih hsublist)
    | cons_cons _ hsublist => exact .cons hab (ih hsublist)
  | cons_right _ ih => exact .cons_right (ih hsublist)

/-- Members without repetition, in some order. -/
theorem exists_perm_sublistForall₂ (hnodup : as'.Nodup) (hsubset : as' ⊆ as)
    (h : SublistForall₂ R as bs) : ∃ as'', as'' ~ as' ∧ SublistForall₂ R as'' bs := by
  obtain ⟨as'', hperm, hsublist⟩ := subperm_of_subset hnodup hsubset
  exact ⟨as'', hperm, sublistForall₂_of_sublist h hsublist⟩

theorem countP_le_of_sublistForall₂ {p : α → Bool} {q : β → Bool} (h : SublistForall₂ R as bs)
    (hpq : ∀ a ∈ as, ∀ b, R a b → p a = true → q b = true) : as.countP p ≤ bs.countP q := by
  induction h with
  | nil => exact Nat.zero_le _
  | @cons a b as bs hab _ ih =>
    have hrest := ih fun a ha => hpq a (mem_cons_of_mem _ ha)
    rw [countP_cons, countP_cons]
    by_cases hp : p a = true
    · rw [if_pos hp, if_pos (hpq a mem_cons_self b hab hp)]
      omega
    · rw [if_neg hp]
      omega
  | @cons_right b as bs _ ih =>
    have hrest := ih hpq
    rw [countP_cons]
    omega

end Foundation
