import Mathlib.Algebra.Order.Floor.Ring
import Mathlib.Tactic.Linarith
import Mathlib.Tactic.NormNum
import Mathlib.Tactic.Ring

/-!
# Rounding to the nearest integer, ties to even

`halfEven` over any field with a floor. It is monotone (`halfEven_mono`) and leaves integers alone
(`halfEven_intCast`), so it stays between the integers around its argument.
-/

namespace Foundation

variable {K : Type*} [Field K] [LinearOrder K] [FloorRing K] {x y : K}

/-- The nearest integer; of two of them, the even one. -/
def halfEven (x : K) : ℤ :=
  if Int.fract x < 1 / 2 then ⌊x⌋
  else if 1 / 2 < Int.fract x then ⌊x⌋ + 1
  else if ⌊x⌋ % 2 = 0 then ⌊x⌋ else ⌊x⌋ + 1

theorem floor_le_halfEven (x : K) : ⌊x⌋ ≤ halfEven x := by
  unfold halfEven
  split_ifs <;> omega

theorem halfEven_le_floor_add_one (x : K) : halfEven x ≤ ⌊x⌋ + 1 := by
  unfold halfEven
  split_ifs <;> omega

variable [IsStrictOrderedRing K]

theorem halfEven_mono (h : x ≤ y) : halfEven x ≤ halfEven y := by
  rcases (Int.floor_mono h).lt_or_eq with hlt | heq
  · calc halfEven x ≤ ⌊x⌋ + 1 := halfEven_le_floor_add_one x
      _ ≤ ⌊y⌋ := hlt
      _ ≤ halfEven y := floor_le_halfEven y
  · -- on one floor the fractions decide
    have hfract : Int.fract x ≤ Int.fract y := by
      unfold Int.fract
      rw [heq]
      exact sub_le_sub_right h _
    unfold halfEven
    rw [heq]
    split_ifs <;> first | omega | (exfalso; linarith)

@[simp] theorem halfEven_intCast (n : ℤ) : halfEven (n : K) = n := by
  have hhalf : Int.fract (n : K) < 1 / 2 := by
    rw [Int.fract_intCast]
    norm_num
  unfold halfEven
  rw [if_pos hhalf, Int.floor_intCast]

/-- An integer bound below is one of the rounded value. -/
theorem le_halfEven {n : ℤ} (h : (n : K) ≤ x) : n ≤ halfEven x := by
  have hmono := halfEven_mono h
  rwa [halfEven_intCast] at hmono

/-- An integer bound above is one of the rounded value. -/
theorem halfEven_le {n : ℤ} (h : x ≤ n) : halfEven x ≤ n := by
  have hmono := halfEven_mono h
  rwa [halfEven_intCast] at hmono

end Foundation
