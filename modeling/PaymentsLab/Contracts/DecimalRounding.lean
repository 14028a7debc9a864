import Mathlib.Data.Rat.Floor
import PaymentsLab.Contracts.DecimalValues
import PaymentsLab.Foundation.HalfEven

/-!
# Rounding to the precision of the context

A result that is not negative is rounded half to even to a unit that depends on its value only
(`toRat_fix_eq`). So rounding is monotone (`toRat_fix_mono`), and adding what is not negative to a
rounded value gives no smaller one (`toRat_le_add`).
-/

namespace PaymentsLab

namespace Decimal

open Foundation

variable {a b d : Decimal}

/-! ## The unit of the last digit -/

/-- The exponent after the first digit. -/
def pointExp (d : Decimal) : Int :=
  d.exp + (Nat.toDigits 10 d.coeff.natAbs).length

/-- The exponent of the last of 28 digits, or the least one. -/
def lastExp (d : Decimal) : Int :=
  max (d.pointExp - 28) contextEtiny

theorem toRat_nonneg (h : 0 ≤ d.coeff) : 0 ≤ d.toRat :=
  mul_nonneg (Int.cast_nonneg h) (ten_zpow_pos _).le

theorem coeff_nonneg (h : 0 ≤ d.toRat) : 0 ≤ d.coeff :=
  Int.cast_nonneg_iff.1 (nonneg_of_mul_nonneg_left h (ten_zpow_pos _))

theorem toRat_pos (h : 0 < d.coeff) : 0 < d.toRat :=
  mul_pos (Int.cast_pos.2 h) (ten_zpow_pos _)

/-- A coefficient with `k` digits. -/
theorem natAbs_bounds {c : Int} (hc : 0 < c) {k : Nat}
    (hk : (Nat.toDigits 10 c.natAbs).length = k + 1) :
    (10 : ℚ) ^ k ≤ c ∧ (c : ℚ) < 10 ^ (k + 1) := by
  have hlt : c.natAbs < 10 ^ (k + 1) :=
    (Nat.length_toDigits_le_iff (by decide) (Nat.succ_pos k)).1 hk.le
  have hle : 10 ^ k ≤ c.natAbs := by
    by_contra hlt'
    rcases Nat.eq_zero_or_pos k with rfl | hpos
    · rw [pow_zero] at hlt'
      omega
    · have hshort := (Nat.length_toDigits_le_iff (by decide) hpos).2 (Nat.not_le.1 hlt')
      omega
  have habs : (c.natAbs : ℚ) = c := by
    rw [← Int.cast_natCast, Int.natAbs_of_nonneg hc.le]
  rw [← habs]
  exact ⟨by exact_mod_cast hle, by exact_mod_cast hlt⟩

/-- The value is below the exponent after its first digit, by less than one digit. -/
theorem toRat_bounds (h : 0 < d.coeff) :
    (10 : ℚ) ^ (d.pointExp - 1) ≤ d.toRat ∧ d.toRat < 10 ^ d.pointExp := by
  obtain ⟨k, hk⟩ : ∃ k, (Nat.toDigits 10 d.coeff.natAbs).length = k + 1 :=
    ⟨_, (Nat.succ_pred_eq_of_pos Nat.length_toDigits_pos).symm⟩
  obtain ⟨hle, hlt⟩ := natAbs_bounds h hk
  have hlow : d.pointExp - 1 = k + d.exp := by
    unfold pointExp
    rw [hk]
    push_cast
    ring
  have hhigh : d.pointExp = (k + 1 : Nat) + d.exp := by
    unfold pointExp
    rw [hk]
    ring
  rw [hlow, hhigh, zpow_add₀ (by norm_num), zpow_add₀ (by norm_num), zpow_natCast, zpow_natCast]
  exact ⟨mul_le_mul_of_nonneg_right hle (ten_zpow_pos _).le,
    mul_lt_mul_of_pos_right hlt (ten_zpow_pos _)⟩

/-- The value has at most 28 digits over its unit. -/
theorem toRat_lt (h : 0 < d.coeff) : d.toRat < 10 ^ (d.lastExp + 28) :=
  (toRat_bounds h).2.trans_le (zpow_le_zpow_right₀ (by norm_num) (by unfold lastExp; omega))

/-- It has 28 digits if its unit is not the least one. -/
theorem le_toRat (h : 0 < d.coeff) (hunit : contextEtiny < d.lastExp) :
    (10 : ℚ) ^ (d.lastExp + 27) ≤ d.toRat := by
  have hpoint : d.lastExp + 27 = d.pointExp - 1 := by
    unfold lastExp at hunit ⊢
    omega
  rw [hpoint]
  exact (toRat_bounds h).1

theorem lastExp_mono (ha : 0 < a.coeff) (hb : 0 < b.coeff) (h : a.toRat ≤ b.toRat) :
    a.lastExp ≤ b.lastExp := by
  have hlt := (toRat_bounds ha).1.trans_lt (h.trans_lt (toRat_bounds hb).2)
  have hexp := (zpow_lt_zpow_iff_right₀ (by norm_num : (1 : ℚ) < 10)).1 hlt
  unfold lastExp
  omega

/-! ## Rounding as a function of the value -/

theorem halfEven_div (n : Int) {m : Int} (hm : 0 < m) :
    halfEven ((n : ℚ) / m) = divHalfEven n m := by
  have hm' : (0 : ℚ) < m := Int.cast_pos.2 hm
  have hsplit : (n : ℚ) / m = ((n / m : Int) : ℚ) + ((n % m : Int) : ℚ) / m := by
    have hn : (n : ℚ) = m * (n / m : Int) + (n % m : Int) := by
      exact_mod_cast (Int.mul_ediv_add_emod n m).symm
    field_simp
    exact hn
  have hpos : 0 ≤ ((n % m : Int) : ℚ) / m :=
    div_nonneg (Int.cast_nonneg (Int.emod_nonneg n hm.ne')) hm'.le
  have hlt : ((n % m : Int) : ℚ) / m < 1 :=
    (div_lt_one hm').2 (Int.cast_lt.2 (Int.emod_lt_of_pos n hm))
  have hfloor : ⌊(n : ℚ) / m⌋ = n / m :=
    Int.floor_eq_iff.2 ⟨by linarith, by linarith⟩
  have hfract : Int.fract ((n : ℚ) / m) = ((n % m : Int) : ℚ) / m := by
    unfold Int.fract
    rw [hfloor, hsplit, add_sub_cancel_left]
  have hbelow : ((n % m : Int) : ℚ) / m < 1 / 2 ↔ 2 * (n % m) < m := by
    rw [div_lt_div_iff₀ hm' two_pos, one_mul, mul_comm]
    exact_mod_cast Iff.rfl
  have habove : 1 / 2 < ((n % m : Int) : ℚ) / m ↔ m < 2 * (n % m) := by
    rw [div_lt_div_iff₀ two_pos hm', one_mul, mul_comm]
    exact_mod_cast Iff.rfl
  unfold halfEven divHalfEven
  simp only [hfract, hfloor, hbelow, habove]

/-- A result is rounded half to even over its unit. -/
theorem toRat_fix_eq (d : Decimal) :
    (fix d).toRat = halfEven (d.toRat / 10 ^ d.lastExp) * 10 ^ d.lastExp := by
  have hunit : d.toRat / 10 ^ d.lastExp = d.coeff * 10 ^ (d.exp - d.lastExp) := by
    unfold toRat
    rw [mul_div_assoc, zpow_sub₀ (by norm_num)]
  by_cases hdrop : d.dropped = 0
  · -- a multiple of the unit is not rounded
    obtain ⟨k, hk⟩ : ∃ k : Nat, d.exp - d.lastExp = k := by
      refine Int.eq_ofNat_of_zero_le ?_
      unfold dropped contextPrecision at hdrop
      unfold lastExp pointExp
      omega
    have hint : d.toRat / 10 ^ d.lastExp = ((d.coeff * 10 ^ k : Int) : ℚ) := by
      rw [hunit, hk, zpow_natCast]
      push_cast
      rfl
    rw [hint, halfEven_intCast, ← hint, fix, if_pos hdrop, div_mul_cancel₀ _ (ten_zpow_pos _).ne']
  · have hlast : d.lastExp = d.exp + d.dropped := by
      unfold dropped contextPrecision at hdrop ⊢
      unfold lastExp pointExp
      omega
    have hexp : d.exp - d.lastExp = -(d.dropped : Int) := by omega
    have hdiv : d.toRat / 10 ^ d.lastExp = (d.coeff : ℚ) / ((10 ^ d.dropped : Int) : ℚ) := by
      rw [hunit, hexp, zpow_neg, zpow_natCast]
      push_cast
      rfl
    rw [hdiv, halfEven_div _ (by positivity), fix, if_neg hdrop, hlast]
    rfl

/-- Rounding is monotone. -/
theorem toRat_fix_mono (ha : 0 ≤ a.coeff) (hb : 0 ≤ b.coeff) (h : a.toRat ≤ b.toRat) :
    (fix a).toRat ≤ (fix b).toRat := by
  rcases ha.eq_or_lt with hzero | ha
  · have hunits : a.IsUnits 0 0 := by
      unfold IsUnits toRat
      rw [← hzero, Int.cast_zero, zero_mul, zero_mul]
    have ha0 : (fix a).toRat = 0 := by
      rw [toRat_fix hunits (by decide) (by decide), hunits, Int.cast_zero, zero_mul]
    rw [ha0]
    exact toRat_nonneg (coeff_fix_nonneg hb)
  · have hb : 0 < b.coeff := by
      refine hb.lt_of_ne fun hzero => ?_
      have hb0 : b.toRat = 0 := by
        unfold toRat
        rw [← hzero, Int.cast_zero, zero_mul]
      exact absurd (h.trans_eq hb0) (not_le.2 (toRat_pos ha))
    have hpa := ten_zpow_pos a.lastExp
    have hpb := ten_zpow_pos b.lastExp
    rw [toRat_fix_eq a, toRat_fix_eq b]
    rcases (lastExp_mono ha hb h).lt_or_eq with hlt | heq
    · -- the power of ten between the two values is one of both units
      have hbelow : halfEven (a.toRat / 10 ^ a.lastExp) ≤ 10 ^ 28 := by
        refine halfEven_le ((div_le_iff₀ hpa).2 ((toRat_lt ha).le.trans_eq ?_))
        rw [add_comm, zpow_add₀ (by norm_num)]
        norm_num
      have habove : 10 ^ 27 ≤ halfEven (b.toRat / 10 ^ b.lastExp) := by
        have hunit : contextEtiny < b.lastExp := (le_max_right _ _).trans_lt hlt
        refine le_halfEven ((le_div_iff₀ hpb).2 (Eq.trans_le ?_ (le_toRat hb hunit)))
        rw [add_comm, zpow_add₀ (by norm_num)]
        norm_num
      have hbelow' : (halfEven (a.toRat / 10 ^ a.lastExp) : ℚ) ≤ 10 ^ 28 := by exact_mod_cast hbelow
      have habove' : (10 : ℚ) ^ 27 ≤ halfEven (b.toRat / 10 ^ b.lastExp) := by exact_mod_cast habove
      have hexp : (10 : ℚ) ^ (a.lastExp + 1) ≤ 10 ^ b.lastExp :=
        zpow_le_zpow_right₀ (by norm_num) (by omega)
      calc (halfEven (a.toRat / 10 ^ a.lastExp) : ℚ) * 10 ^ a.lastExp
          ≤ 10 ^ 28 * 10 ^ a.lastExp := mul_le_mul_of_nonneg_right hbelow' hpa.le
        _ = 10 ^ 27 * 10 ^ (a.lastExp + 1) := by
          rw [zpow_add₀ (by norm_num)]
          ring
        _ ≤ 10 ^ 27 * 10 ^ b.lastExp := mul_le_mul_of_nonneg_left hexp (by norm_num)
        _ ≤ halfEven (b.toRat / 10 ^ b.lastExp) * 10 ^ b.lastExp :=
          mul_le_mul_of_nonneg_right habove' hpb.le
    · rw [heq]
      have hmono := halfEven_mono ((div_le_div_iff_of_pos_right hpb).2 h)
      exact mul_le_mul_of_nonneg_right (by exact_mod_cast hmono) hpb.le

/-! ## Rounded values -/

/-- The value has at most 28 digits over some unit. -/
def IsRounded (d : Decimal) : Prop :=
  ∃ n e : Int, d.IsUnits n e ∧ n.natAbs < 10 ^ 28 ∧ contextEtiny ≤ e

theorem isRounded_zero : (0 : Decimal).IsRounded :=
  ⟨0, 0, by unfold IsUnits; rw [toRat_zero, Int.cast_zero, zero_mul], by decide, by decide⟩

theorem IsRounded.toRat_fix (h : d.IsRounded) : (fix d).toRat = d.toRat := by
  obtain ⟨n, e, hunits, hn, he⟩ := h
  exact Decimal.toRat_fix hunits hn he

theorem isRounded_fix (h : 0 ≤ d.coeff) : (fix d).IsRounded := by
  rcases h.eq_or_lt with hzero | hpos
  · refine ⟨0, 0, ?_, by decide, by decide⟩
    have hunits : d.IsUnits 0 0 := by
      unfold IsUnits toRat
      rw [← hzero, Int.cast_zero, zero_mul, zero_mul]
    exact (Decimal.toRat_fix hunits (by decide) (by decide)).trans hunits
  · have hle : halfEven (d.toRat / 10 ^ d.lastExp) ≤ 10 ^ 28 := by
      refine halfEven_le ((div_le_iff₀ (ten_zpow_pos _)).2 ((toRat_lt hpos).le.trans_eq ?_))
      rw [add_comm, zpow_add₀ (by norm_num)]
      norm_num
    have hnonneg : 0 ≤ halfEven (d.toRat / 10 ^ d.lastExp) :=
      le_halfEven (by rw [Int.cast_zero]; exact div_nonneg (toRat_nonneg h) (ten_zpow_pos _).le)
    have hleast : contextEtiny ≤ d.lastExp := le_max_right _ _
    rcases hle.lt_or_eq with hlt | heq
    · exact ⟨_, _, toRat_fix_eq d, by omega, hleast⟩
    · -- one unit more than 28 digits
      refine ⟨10 ^ 27, d.lastExp + 1, ?_, by decide, by omega⟩
      unfold IsUnits
      rw [toRat_fix_eq, heq, zpow_add₀ (by norm_num)]
      push_cast
      ring

/-! ## Sums -/

theorem scaled_nonneg {e : Int} (h : 0 ≤ d.coeff) : 0 ≤ d.scaled e := by
  unfold scaled
  positivity

theorem add_coeff_nonneg (ha : 0 ≤ a.coeff) (hb : 0 ≤ b.coeff) : 0 ≤ (a + b).coeff :=
  coeff_fix_nonneg (Int.add_nonneg (scaled_nonneg ha) (scaled_nonneg hb))

theorem isRounded_add (ha : 0 ≤ a.coeff) (hb : 0 ≤ b.coeff) : (a + b).IsRounded :=
  isRounded_fix (Int.add_nonneg (scaled_nonneg ha) (scaled_nonneg hb))

/-- Addition is monotone. -/
theorem toRat_add_mono {a' b' : Decimal} (ha : 0 ≤ a.coeff) (hb : 0 ≤ b.coeff)
    (ha' : 0 ≤ a'.coeff) (hb' : 0 ≤ b'.coeff) (h : a.toRat ≤ a'.toRat) (h' : b.toRat ≤ b'.toRat) :
    (a + b).toRat ≤ (a' + b').toRat := by
  refine toRat_fix_mono (Int.add_nonneg (scaled_nonneg ha) (scaled_nonneg hb))
    (Int.add_nonneg (scaled_nonneg ha') (scaled_nonneg hb')) ?_
  rw [toRat_scaled_add, toRat_scaled_add]
  exact add_le_add h h'

/-- What is added to a rounded value gives no smaller one. -/
theorem toRat_le_add (hrounded : a.IsRounded) (ha : 0 ≤ a.coeff) (hb : 0 ≤ b.coeff) :
    a.toRat ≤ (a + b).toRat := by
  rw [← hrounded.toRat_fix]
  refine toRat_fix_mono ha (Int.add_nonneg (scaled_nonneg ha) (scaled_nonneg hb)) ?_
  rw [toRat_scaled_add]
  exact le_add_of_nonneg_right (toRat_nonneg hb)

end Decimal

end PaymentsLab
