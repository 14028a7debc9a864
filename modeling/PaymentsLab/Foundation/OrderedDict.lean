import Mathlib.Data.List.Forall2

/-!
# Dictionaries in insertion order

A dictionary is the list of its items. An item that is set takes the place of the one with its key,
or comes last.
-/

namespace Foundation

namespace OrderedDict

variable {κ ν : Type} [DecidableEq κ] {d : List (κ × ν)} {k : κ} {v : ν}

/-- `d[k] = v`. -/
def setItem (d : List (κ × ν)) (k : κ) (v : ν) : List (κ × ν) :=
  if d.any fun item => item.1 = k then d.map fun item => if item.1 = k then (item.1, v) else item
  else d ++ [(k, v)]

/-- `d.update(other)`. -/
def update (d other : List (κ × ν)) : List (κ × ν) :=
  other.foldl (fun d item => setItem d item.1 item.2) d

theorem mem_setItem {item : κ × ν} :
    item ∈ setItem d k v ↔ item ∈ d ∧ item.1 ≠ k ∨ item = (k, v) := by
  unfold setItem
  split_ifs with hany
  · obtain ⟨old, hold, hkey⟩ := List.any_eq_true.1 hany
    have hkey : old.1 = k := of_decide_eq_true hkey
    rw [List.mem_map]
    constructor
    · rintro ⟨other, hother, rfl⟩
      split_ifs with hsame
      · exact .inr (by rw [hsame])
      · exact .inl ⟨hother, hsame⟩
    · rintro (⟨hitem, hne⟩ | rfl)
      · exact ⟨item, hitem, if_neg hne⟩
      · exact ⟨old, hold, by rw [if_pos hkey, hkey]⟩
  · have hne : ∀ item ∈ d, item.1 ≠ k := fun item hitem hkey =>
      hany (List.any_eq_true.2 ⟨item, hitem, decide_eq_true hkey⟩)
    rw [List.mem_append, List.mem_singleton]
    exact or_congr_left ⟨fun hitem => ⟨hitem, hne item hitem⟩, And.left⟩

theorem lookup_cons_eq [BEq κ] [LawfulBEq κ] (k : κ) (item : κ × ν)
    (d : List (κ × ν)) :
    (item :: d).lookup k = if k = item.1 then some item.2 else d.lookup k := by
  rw [List.lookup_cons]
  by_cases hkey : k = item.1
  · rw [beq_iff_eq.2 hkey, if_pos hkey]
  · rw [beq_eq_false_iff_ne.2 hkey, if_neg hkey]

/-- Only the item that is set changes. -/
theorem lookup_setItem [BEq κ] [LawfulBEq κ] (d : List (κ × ν)) (k k' : κ) (v : ν) :
    (setItem d k v).lookup k' = if k' = k then some v else d.lookup k' := by
  have hmap (hne : k' ≠ k) (d : List (κ × ν)) :
      (d.map fun item => if item.1 = k then (item.1, v) else item).lookup k' = d.lookup k' := by
    induction d with
    | nil => rfl
    | cons item d ih =>
      rw [List.map_cons, lookup_cons_eq, lookup_cons_eq, ih]
      by_cases hkey : item.1 = k
      · have hother : k' ≠ item.1 := fun heq => hne (heq.trans hkey)
        rw [if_pos hkey, if_neg hother, if_neg hother]
      · rw [if_neg hkey]
  induction d with
  | nil => exact lookup_cons_eq k' (k, v) []
  | cons item d ih =>
    by_cases hitem : item.1 = k
    · have hset : setItem (item :: d) k v =
          (item.1, v) :: d.map fun item => if item.1 = k then (item.1, v) else item := by
        unfold setItem
        rw [if_pos (List.any_eq_true.2 ⟨item, List.mem_cons_self, decide_eq_true hitem⟩),
          List.map_cons, if_pos hitem]
      rw [hset, lookup_cons_eq, lookup_cons_eq, hitem]
      split_ifs with hkey
      · rfl
      · exact hmap hkey d
    · have hset : setItem (item :: d) k v = item :: setItem d k v := by
        unfold setItem
        rw [List.any_cons, decide_eq_false hitem, Bool.false_or, List.map_cons, if_neg hitem]
        split_ifs <;> rfl
      rw [hset, lookup_cons_eq, lookup_cons_eq, ih]
      split_ifs with hold hkey
      · exact absurd (hold.symm.trans hkey) hitem
      · rfl
      · rfl
      · rfl

/-! ## Dictionaries with related values -/

/-- The same keys, in the same order, with related values. -/
def Related (R : ν → ν → Prop) (d d' : List (κ × ν)) : Prop :=
  List.Forall₂ (fun item item' => item.1 = item'.1 ∧ R item.2 item'.2) d d'

namespace Related

variable {R : ν → ν → Prop} {d' : List (κ × ν)} {v' : ν}

omit [DecidableEq κ] in
theorem map_key_eq {α : Type} (h : Related R d d') (f : κ → α) :
    d.map (fun item => f item.1) = d'.map fun item => f item.1 := by
  induction h with
  | nil => rfl
  | cons hitem _ ih => rw [List.map_cons, List.map_cons, ih, hitem.1]

theorem any_eq (h : Related R d d') :
    (d.any fun item => item.1 = k) = d'.any fun item => item.1 = k := by
  induction h with
  | nil => rfl
  | cons hitem _ ih => rw [List.any_cons, List.any_cons, ih, hitem.1]

theorem setItem (h : Related R d d') (hv : R v v') :
    Related R (setItem d k v) (setItem d' k v') := by
  unfold OrderedDict.setItem
  rw [h.any_eq]
  split_ifs
  · refine List.forall₂_map_left_iff.2 (List.forall₂_map_right_iff.2 (h.imp ?_))
    rintro ⟨key, value⟩ ⟨_, value'⟩ ⟨rfl, hvalue⟩
    dsimp only
    split_ifs
    · exact ⟨rfl, hv⟩
    · exact ⟨rfl, hvalue⟩
  · exact List.rel_append h (.cons ⟨rfl, hv⟩ .nil)

theorem update (hR : ∀ v, R v v) (h : Related R d d') (other : List (κ × ν)) :
    Related R (update d other) (update d' other) := by
  induction other generalizing d d' with
  | nil => exact h
  | cons item other ih => exact ih (h.setItem (hR item.2))

end Related

end OrderedDict

end Foundation
