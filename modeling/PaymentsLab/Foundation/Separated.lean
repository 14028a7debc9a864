import Mathlib.Logic.Function.Basic

/-!
# Texts with separators

A list of parts becomes one text with a separator between any two of them. `Cut` says in which ways
a text made so can be taken apart at a separator: between two parts, or within a part that has the
separator in it. `append_eq_join_iff` says that there is no other way.
-/

namespace Foundation

namespace Separated

variable {α : Type} {sep : α}

/-- What stands before the first separator, and what stands after it. -/
theorem split_at_separator {xs xs' ys ys' : List α} (hxs : sep ∉ xs) (hxs' : sep ∉ xs')
    (h : xs ++ sep :: ys = xs' ++ sep :: ys') : xs = xs' ∧ ys = ys' := by
  induction xs generalizing xs' with
  | nil =>
    cases xs' with
    | nil => exact ⟨rfl, (List.cons.inj h).2⟩
    | cons x' xs' => exact absurd (List.cons.inj h).1 (List.ne_of_not_mem_cons hxs')
  | cons x xs ih =>
    cases xs' with
    | nil => exact absurd (List.cons.inj h).1.symm (List.ne_of_not_mem_cons hxs)
    | cons x' xs' =>
      obtain ⟨rfl, htail⟩ := List.cons.inj h
      obtain ⟨rfl, rfl⟩ := ih (List.not_mem_of_not_mem_cons hxs)
        (List.not_mem_of_not_mem_cons hxs') htail
      exact ⟨rfl, rfl⟩

/-- What stands before the last separator, and what stands after it. -/
theorem split_at_last_separator {xs xs' ys ys' : List α} (hys : sep ∉ ys) (hys' : sep ∉ ys')
    (h : xs ++ sep :: ys = xs' ++ sep :: ys') : xs = xs' ∧ ys = ys' := by
  have hreverse := congrArg List.reverse h
  simp only [List.reverse_append, List.reverse_cons, List.append_assoc, List.singleton_append]
    at hreverse
  obtain ⟨hback, hfront⟩ := split_at_separator (by rwa [List.mem_reverse])
    (by rwa [List.mem_reverse]) hreverse
  exact ⟨List.reverse_inj.1 hfront, List.reverse_inj.1 hback⟩

/-- The parts, with the separator between any two. -/
def join (sep : α) (parts : List (List α)) : List α :=
  [sep].intercalate parts

@[simp] theorem join_singleton (part : List α) : join sep [part] = part :=
  List.intercalate_singleton

theorem join_cons {part : List α} {parts : List (List α)} (h : parts ≠ []) :
    join sep (part :: parts) = part ++ sep :: join sep parts := by
  unfold join
  rw [List.intercalate_cons_of_ne_nil h, List.append_assoc]
  rfl

/-- `Cut sep parts front back`: the parts fall into `front` and `back` at one separator. -/
inductive Cut (sep : α) : (parts front back : List (List α)) → Prop
  | between (part : List α) {parts : List (List α)} (h : parts ≠ []) :
      Cut sep (part :: parts) [part] parts
  | within (front back : List α) (parts : List (List α)) :
      Cut sep ((front ++ sep :: back) :: parts) [front] (back :: parts)
  | later (part : List α) {parts front back : List (List α)} (h : Cut sep parts front back) :
      Cut sep (part :: parts) (part :: front) back

namespace Cut

variable {parts front back : List (List α)}

theorem front_ne_nil (h : Cut sep parts front back) : front ≠ [] := by
  cases h <;> exact List.cons_ne_nil _ _

theorem parts_ne_nil (h : Cut sep parts front back) : parts ≠ [] := by
  cases h <;> exact List.cons_ne_nil _ _

/-- Both sides of a cut, with the separator between them, are the text. -/
theorem join_eq (h : Cut sep parts front back) :
    join sep front ++ sep :: join sep back = join sep parts := by
  induction h with
  | between part h => rw [join_singleton, join_cons h]
  | within front back parts =>
    cases parts with
    | nil => simp only [join_singleton]
    | cons part parts =>
      rw [join_singleton, join_cons (List.cons_ne_nil _ _), join_cons (List.cons_ne_nil _ _)]
      simp only [List.append_assoc, List.cons_append]
  | later part h ih =>
    rw [join_cons h.front_ne_nil, join_cons h.parts_ne_nil, List.append_assoc, List.cons_append,
      ih]

end Cut

/-- Where a text made of parts can be taken apart. -/
theorem append_eq_join_iff {parts : List (List α)} (hparts : parts ≠ []) {a b : List α} :
    a ++ sep :: b = join sep parts ↔
      ∃ front back, Cut sep parts front back ∧ a = join sep front ∧ b = join sep back := by
  constructor
  · intro h
    induction parts generalizing a with
    | nil => exact absurd rfl hparts
    | cons part parts ih =>
      by_cases hlast : parts = []
      · subst hlast
        rw [join_singleton] at h
        exact ⟨[a], [b], h ▸ .within a b [], (join_singleton a).symm, (join_singleton b).symm⟩
      rw [join_cons hlast] at h
      rcases List.append_eq_append_iff.1 h with ⟨c, hpart, hb⟩ | ⟨c, ha, hrest⟩
      · cases c with
        | nil =>
          rw [List.append_nil] at hpart
          subst hpart
          exact ⟨[part], parts, .between part hlast, (join_singleton _).symm,
            (List.cons.inj hb).2⟩
        | cons x c =>
          obtain ⟨rfl, rfl⟩ := List.cons.inj hb
          subst hpart
          exact ⟨[a], c :: parts, .within a c parts, (join_singleton _).symm,
            (join_cons hlast).symm⟩
      · cases c with
        | nil =>
          rw [List.append_nil] at ha
          subst ha
          exact ⟨[a], parts, .between a hlast, (join_singleton _).symm,
            (List.cons.inj hrest).2.symm⟩
        | cons x c =>
          obtain ⟨rfl, hjoin⟩ := List.cons.inj hrest
          obtain ⟨front, back, hcut, rfl, hb⟩ := ih hlast hjoin.symm
          exact ⟨part :: front, back, .later part hcut,
            ha.trans (join_cons hcut.front_ne_nil).symm, hb⟩
  · rintro ⟨front, back, hcut, rfl, rfl⟩
    exact hcut.join_eq

end Separated

end Foundation
