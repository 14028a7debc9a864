import Mathlib.Algebra.Order.Field.Basic
import Mathlib.Algebra.Order.Ring.Rat
import Mathlib.Data.List.Forall2
import Mathlib.Tactic.FieldSimp
import Mathlib.Tactic.Linarith
import Mathlib.Tactic.NormNum
import Mathlib.Tactic.Ring
import PaymentsLab.Contracts.Decimal

/-!
# The values of decimals

The operations of `Decimal` against the rationals. Comparison is that of the values. A result is
rounded, so an operation gives the value of its operands only where that is a multiple of a power of
ten with at most 28 digits (`toRat_fix`), as whole cents are (`IsCents`).
-/

namespace PaymentsLab

namespace Decimal

variable {a b d : Decimal}

theorem ten_zpow_pos (e : Int) : (0 : ℚ) < 10 ^ e :=
  zpow_pos (by norm_num) e

/-- A power of ten, over a smaller one. -/
theorem pow_toNat_mul {e e' : Int} (h : e ≤ e') :
    ((10 ^ (e' - e).toNat : Int) : ℚ) * 10 ^ e = 10 ^ e' := by
  have hnat : ((e' - e).toNat : Int) = e' - e := Int.toNat_of_nonneg (by omega)
  rw [Int.cast_pow, Int.cast_ofNat, ← zpow_natCast, hnat, ← zpow_add₀ (by norm_num)]
  congr 1
  omega

theorem scaled_mul {e : Int} (h : e ≤ d.exp) : (d.scaled e : ℚ) * 10 ^ e = d.toRat := by
  unfold scaled toRat
  rw [Int.cast_mul, mul_assoc, pow_toNat_mul h]

theorem le_iff_toRat : a ≤ b ↔ a.toRat ≤ b.toRat := by
  have hle : a ≤ b ↔ a.scaled (min a.exp b.exp) ≤ b.scaled (min a.exp b.exp) := Iff.rfl
  rw [hle, ← scaled_mul (d := a) (Int.min_le_left a.exp b.exp),
    ← scaled_mul (d := b) (Int.min_le_right a.exp b.exp),
    mul_le_mul_iff_of_pos_right (ten_zpow_pos _), Int.cast_le]

theorem lt_iff_toRat : a < b ↔ a.toRat < b.toRat := by
  have hlt : a < b ↔ a.scaled (min a.exp b.exp) < b.scaled (min a.exp b.exp) := Iff.rfl
  rw [hlt, ← scaled_mul (d := a) (Int.min_le_left a.exp b.exp),
    ← scaled_mul (d := b) (Int.min_le_right a.exp b.exp),
    mul_lt_mul_iff_of_pos_right (ten_zpow_pos _), Int.cast_lt]

/-- A sum over the smaller exponent. -/
theorem toRat_scaled_add (a b : Decimal) :
    toRat ⟨a.scaled (min a.exp b.exp) + b.scaled (min a.exp b.exp), min a.exp b.exp⟩ =
      a.toRat + b.toRat := by
  rw [← scaled_mul (d := a) (Int.min_le_left a.exp b.exp),
    ← scaled_mul (d := b) (Int.min_le_right a.exp b.exp)]
  unfold toRat
  rw [Int.cast_add, add_mul]

theorem toRat_zero : (0 : Decimal).toRat = 0 := by
  change ((0 : Int) : ℚ) * _ = 0
  rw [Int.cast_zero, zero_mul]

@[simp] theorem toRat_sum_nil : (sum []).toRat = 0 :=
  toRat_zero

@[simp] theorem toRat_sum_cons (d : Decimal) (ds : List Decimal) :
    (sum (d :: ds)).toRat = d.toRat + (sum ds).toRat :=
  toRat_scaled_add d (sum ds)

/-- The sum of a column is exact. -/
theorem toRat_sum_append (ds ds' : List Decimal) :
    (sum (ds ++ ds')).toRat = (sum ds).toRat + (sum ds').toRat := by
  induction ds with
  | nil => rw [List.nil_append, toRat_sum_nil, zero_add]
  | cons d ds ih => rw [List.cons_append, toRat_sum_cons, toRat_sum_cons, ih, add_assoc]

open List in
theorem toRat_sum_perm {ds ds' : List Decimal} (h : ds ~ ds') :
    (sum ds).toRat = (sum ds').toRat := by
  induction h with
  | nil => rfl
  | cons d _ ih => rw [toRat_sum_cons, toRat_sum_cons, ih]
  | swap d d' ds =>
    rw [toRat_sum_cons, toRat_sum_cons, toRat_sum_cons, toRat_sum_cons, add_left_comm]
  | trans _ _ ih ih' => exact ih.trans ih'

/-- The sum of a list that is matched into another one, whose other members are not negative. -/
theorem toRat_sum_le_of_sublistForall₂ {α β : Type} {R : α → β → Prop} {as : List α} {bs : List β}
    {f : α → Decimal} {g : β → Decimal} (h : List.SublistForall₂ R as bs)
    (hle : ∀ a ∈ as, ∀ b ∈ bs, R a b → (f a).toRat ≤ (g b).toRat)
    (hpos : ∀ b ∈ bs, 0 ≤ (g b).toRat) :
    (sum (as.map f)).toRat ≤ (sum (bs.map g)).toRat := by
  induction h with
  | @nil bs =>
    induction bs with
    | nil => exact le_rfl
    | cons b bs ih =>
      have hrest := ih (fun a ha => absurd ha List.not_mem_nil) fun b hb =>
        hpos b (List.mem_cons_of_mem _ hb)
      rw [List.map_cons, toRat_sum_cons]
      exact le_add_of_nonneg_of_le (hpos b List.mem_cons_self) hrest
  | @cons a b as bs hab _ ih =>
    have hrest := ih
      (fun a ha b hb => hle a (List.mem_cons_of_mem _ ha) b (List.mem_cons_of_mem _ hb))
      fun b hb => hpos b (List.mem_cons_of_mem _ hb)
    rw [List.map_cons, List.map_cons, toRat_sum_cons, toRat_sum_cons]
    exact add_le_add (hle a List.mem_cons_self b List.mem_cons_self hab) hrest
  | @cons_right b as bs _ ih =>
    have hrest := ih (fun a ha b hb => hle a ha b (List.mem_cons_of_mem _ hb))
      fun b hb => hpos b (List.mem_cons_of_mem _ hb)
    rw [List.map_cons, toRat_sum_cons]
    exact le_add_of_nonneg_of_le (hpos b List.mem_cons_self) hrest

theorem toRat_coeff_mul (a b : Decimal) :
    toRat ⟨a.coeff * b.coeff, a.exp + b.exp⟩ = a.toRat * b.toRat := by
  unfold toRat
  rw [zpow_add₀ (by norm_num)]
  push_cast
  ring

/-! ## Rounding -/

/-- The value is `n` units of `10 ^ e`. -/
def IsUnits (d : Decimal) (n e : Int) : Prop :=
  d.toRat = n * 10 ^ e

theorem IsUnits.eq_scaled {n e : Int} (h : d.IsUnits n e) (he : e ≤ d.exp) : n = d.scaled e := by
  have hvalue : (d.scaled e : ℚ) * 10 ^ e = n * 10 ^ e := (scaled_mul he).trans h
  exact (Int.cast_injective (mul_right_cancel₀ (ten_zpow_pos e).ne' hvalue)).symm

theorem IsUnits.coeff_eq {n e : Int} (h : d.IsUnits n e) (he : d.exp ≤ e) :
    d.coeff = n * 10 ^ (e - d.exp).toNat := by
  have hvalue : (d.coeff : ℚ) * 10 ^ d.exp = (n * 10 ^ (e - d.exp).toNat : Int) * 10 ^ d.exp := by
    rw [Int.cast_mul, mul_assoc, pow_toNat_mul he]
    exact h
  exact Int.cast_injective (mul_right_cancel₀ (ten_zpow_pos _).ne' hvalue)

theorem divHalfEven_of_dvd {n m : Int} (hm : 0 < m) : divHalfEven (n * m) m = n := by
  unfold divHalfEven
  rw [Int.mul_ediv_cancel n hm.ne', Int.mul_emod_left]
  simp [hm]

theorem divHalfAway_of_dvd {n m : Int} (hm : 0 < m) : divHalfAway (n * m) m = n := by
  have hsplit : 2 * ((n * m).natAbs : Int) + m = m + n.natAbs * (2 * m) := by
    rw [Int.natAbs_mul, Int.natCast_mul, Int.natAbs_of_nonneg hm.le]
    ring
  unfold divHalfAway
  rw [hsplit, Int.add_mul_ediv_right _ _ (by omega), Int.ediv_eq_zero_of_lt hm.le (by omega),
    Int.zero_add, Int.sign_mul, Int.sign_eq_one_of_pos hm, Int.mul_one, Int.sign_mul_natAbs]

theorem coeff_pos (h : 0 < d) : 0 < d.coeff := by
  rw [lt_iff_toRat, toRat_zero] at h
  exact Int.cast_pos.1 (pos_of_mul_pos_left h (ten_zpow_pos _).le)

theorem divHalfEven_nonneg {n m : Int} (hn : 0 ≤ n) (hm : 0 < m) : 0 ≤ divHalfEven n m := by
  have hq : 0 ≤ n / m := Int.ediv_nonneg hn hm.le
  unfold divHalfEven
  simp only
  split
  · exact hq
  · split
    · omega
    · split <;> omega

theorem coeff_fix_nonneg (h : 0 ≤ d.coeff) : 0 ≤ (fix d).coeff := by
  unfold fix
  split
  · exact h
  · exact divHalfEven_nonneg h (by positivity)

theorem toIntegral_nonneg (h : 0 ≤ d.coeff) : 0 ≤ d.toIntegral := by
  unfold toIntegral
  split
  · positivity
  · exact divHalfEven_nonneg h (by positivity)

/-- `_as_cents` of an amount that is not negative. -/
theorem asCents_nonneg (h : 0 ≤ d.coeff) : 0 ≤ d.asCents :=
  toIntegral_nonneg (coeff_fix_nonneg (d := ⟨d.coeff * 100, d.exp + 0⟩) (by positivity))

/-- What has at most 28 digits over some exponent is not rounded. -/
theorem toRat_fix {n e : Int} (h : d.IsUnits n e) (hn : n.natAbs < 10 ^ 28)
    (he : contextEtiny ≤ e) : (fix d).toRat = d.toRat := by
  by_cases hdrop : d.dropped = 0
  · rw [fix, if_pos hdrop]
  · have hexp : d.exp < e := by
      by_contra hle
      -- over a larger exponent the coefficient has no more digits than `n`
      have hscaled := h.eq_scaled (by omega : e ≤ d.exp)
      have hpow : 0 < 10 ^ (d.exp - e).toNat := Nat.pow_pos (by decide)
      have habs : n.natAbs = d.coeff.natAbs * 10 ^ (d.exp - e).toNat := by
        rw [hscaled, scaled, Int.natAbs_mul, Int.natAbs_pow]
        rfl
      have hsmall := (Nat.le_mul_of_pos_right _ hpow).trans_lt (habs ▸ hn)
      have hshort := (Nat.length_toDigits_le_iff (by decide) (by decide)).2 hsmall
      unfold dropped contextPrecision at hdrop
      omega
    obtain ⟨k, hk⟩ : ∃ k, (e - d.exp).toNat = k := ⟨_, rfl⟩
    have hcoeff : d.coeff = n * 10 ^ k := hk ▸ h.coeff_eq hexp.le
    -- the digits that are dropped are zeros
    obtain ⟨drop, hdropped⟩ : ∃ drop, d.dropped = drop := ⟨_, rfl⟩
    have hle : drop ≤ k := by
      have hlt : d.coeff.natAbs < 10 ^ (28 + k) := by
        rw [hcoeff, Int.natAbs_mul, Int.natAbs_pow, Nat.pow_add]
        exact Nat.mul_lt_mul_of_pos_right hn (Nat.pow_pos (by decide))
      have hlength := (Nat.length_toDigits_le_iff (by decide) (by omega)).2 hlt
      unfold dropped contextPrecision at hdropped
      omega
    have hsplit : d.coeff = n * 10 ^ (k - drop) * 10 ^ drop := by
      rw [hcoeff, mul_assoc, ← pow_add, Nat.sub_add_cancel hle]
    have hfix : fix d = ⟨n * 10 ^ (k - drop), d.exp + drop⟩ := by
      rw [fix, if_neg hdrop, hdropped, hsplit, divHalfEven_of_dvd (by positivity)]
    rw [hfix]
    unfold toRat
    rw [hsplit, zpow_add₀ (by norm_num), zpow_natCast]
    push_cast
    ring

theorem IsUnits.scaled_add {m n e : Int} (ha : a.IsUnits m e) (hb : b.IsUnits n e) :
    IsUnits ⟨a.scaled (min a.exp b.exp) + b.scaled (min a.exp b.exp), min a.exp b.exp⟩ (m + n)
      e := by
  unfold IsUnits
  rw [toRat_scaled_add, ha, hb, Int.cast_add, add_mul]

theorem IsUnits.add {m n e : Int} (he : contextEtiny ≤ e) (ha : a.IsUnits m e) (hb : b.IsUnits n e)
    (hmn : (m + n).natAbs < 10 ^ 28) : (a + b).IsUnits (m + n) e := by
  have hsum := ha.scaled_add hb
  exact (toRat_fix hsum hmn he).trans hsum

/-! ## Exact sums -/

/-- Any of the decimals are added without rounding, in any order. -/
def AddExactly (ds : List Decimal) : Prop :=
  ∀ ds' : List Decimal, ds'.Subperm ds → (ds'.foldl (· + ·) 0).toRat = (sum ds').toRat

theorem toRat_sum_nonneg {ds : List Decimal} (h : ∀ d ∈ ds, 0 ≤ d.toRat) : 0 ≤ (sum ds).toRat := by
  induction ds with
  | nil => rw [toRat_sum_nil]
  | cons d ds ih =>
    rw [toRat_sum_cons]
    exact add_nonneg (h d List.mem_cons_self) (ih fun d hd => h d (List.mem_cons_of_mem _ hd))

theorem toRat_sum_le_of_subperm {ds ds' : List Decimal} (h : ds.Subperm ds')
    (hpos : ∀ d ∈ ds', 0 ≤ d.toRat) : (sum ds).toRat ≤ (sum ds').toRat := by
  obtain ⟨xs, hperm, hsublist⟩ := h
  rw [← toRat_sum_perm hperm]
  have hle := toRat_sum_le_of_sublistForall₂ (R := Eq) (f := id) (g := id)
    (List.sublistForall₂_iff.2 ⟨xs, List.forall₂_eq_eq_eq ▸ rfl, hsublist⟩)
    (fun _ _ _ _ hab => hab ▸ le_rfl) hpos
  rw [List.map_id, List.map_id] at hle
  exact hle

/-- Units of one power of ten are added without rounding where their sum has 28 digits at most. -/
theorem toRat_foldl_add {e : Int} (he : contextEtiny ≤ e) {ds : List Decimal}
    (hds : ∀ d ∈ ds, ∃ m : Int, d.IsUnits m e ∧ 0 ≤ m) {n : Int} (hd : d.IsUnits n e) (hn : 0 ≤ n)
    (hbound : d.toRat + (sum ds).toRat < 10 ^ 28 * 10 ^ e) :
    (ds.foldl (· + ·) d).toRat = d.toRat + (sum ds).toRat := by
  induction ds generalizing d n with
  | nil => rw [List.foldl_nil, toRat_sum_nil, add_zero]
  | cons x ds ih =>
    have hrest := fun d hd => hds d (List.mem_cons_of_mem _ hd)
    obtain ⟨m, hx, hm⟩ := hds x List.mem_cons_self
    have hpos : 0 ≤ (sum ds).toRat := toRat_sum_nonneg fun d hd => by
      obtain ⟨k, hk, hk0⟩ := hrest d hd
      rw [hk]
      exact mul_nonneg (Int.cast_nonneg hk0) (ten_zpow_pos e).le
    rw [toRat_sum_cons, ← add_assoc] at hbound
    have hvalue : d.toRat + x.toRat = ((n + m : Int) : ℚ) * 10 ^ e := by
      rw [hd, hx, Int.cast_add, add_mul]
    have hsmall : (n + m).natAbs < 10 ^ 28 := by
      have hlt : ((n + m : Int) : ℚ) < 10 ^ 28 := by
        refine lt_of_mul_lt_mul_right ?_ (ten_zpow_pos e).le
        rw [← hvalue]
        linarith
      have hint : n + m < 10 ^ 28 := by exact_mod_cast hlt
      omega
    have hadd := IsUnits.add he hd hx hsmall
    have hexact : (d + x).toRat = d.toRat + x.toRat := hadd.trans hvalue.symm
    rw [List.foldl_cons, toRat_sum_cons, ← add_assoc, ← hexact]
    refine ih hrest hadd (by omega) ?_
    rw [hexact]
    exact hbound

/-- What is left of the context's digits for units of a power of ten. -/
theorem addExactly_of_units {e : Int} (he : contextEtiny ≤ e) {ds : List Decimal}
    (hds : ∀ d ∈ ds, ∃ m : Int, d.IsUnits m e ∧ 0 ≤ m)
    (hbound : (sum ds).toRat < 10 ^ 28 * 10 ^ e) : AddExactly ds := by
  intro ds' hsub
  have hzero : IsUnits 0 0 e := by
    unfold IsUnits
    rw [toRat_zero, Int.cast_zero, zero_mul]
  have hle := toRat_sum_le_of_subperm hsub fun d hd => by
    obtain ⟨m, hm, hm0⟩ := hds d hd
    rw [hm]
    exact mul_nonneg (Int.cast_nonneg hm0) (ten_zpow_pos e).le
  have hsum := toRat_foldl_add he (fun d hd => hds d (hsub.subset hd)) hzero le_rfl
    (by rw [toRat_zero, zero_add]; exact hle.trans_lt hbound)
  rw [hsum, toRat_zero, zero_add]

/-! ## Whole cents -/

/-- The decimal is a number of whole cents. -/
abbrev IsCents (d : Decimal) (n : Int) : Prop :=
  d.IsUnits n (-2)

theorem isCents_iff {n : Int} : d.IsCents n ↔ d.toRat = n / 100 := by
  have hcent : ((10 : ℚ) ^ (-2 : Int)) = 1 / 100 := by norm_num
  unfold IsCents IsUnits
  rw [hcent, mul_one_div]

theorem isCents_mk (n : Int) : IsCents ⟨n, -2⟩ n :=
  rfl

theorem isCents_zero : (0 : Decimal).IsCents 0 := by
  unfold IsCents IsUnits
  rw [toRat_zero, Int.cast_zero, zero_mul]

section Cents

variable {m n : Int} (ha : a.IsCents m) (hb : b.IsCents n)

include ha hb

theorem IsCents.le_iff : a ≤ b ↔ m ≤ n := by
  rw [le_iff_toRat, ha, hb, mul_le_mul_iff_of_pos_right (ten_zpow_pos _), Int.cast_le]

theorem IsCents.lt_iff : a < b ↔ m < n := by
  rw [lt_iff_toRat, ha, hb, mul_lt_mul_iff_of_pos_right (ten_zpow_pos _), Int.cast_lt]

theorem IsCents.scaled_add :
    IsCents ⟨a.scaled (min a.exp b.exp) + b.scaled (min a.exp b.exp), min a.exp b.exp⟩ (m + n) :=
  IsUnits.scaled_add ha hb

theorem IsCents.add (hmn : (m + n).natAbs < 10 ^ 28) : (a + b).IsCents (m + n) :=
  IsUnits.add (by decide) ha hb hmn

end Cents

theorem IsCents.sum_append {ds ds' : List Decimal} {m n : Int} (h : (sum ds).IsCents m)
    (h' : (sum ds').IsCents n) : (sum (ds ++ ds')).IsCents (m + n) := by
  unfold IsCents IsUnits
  rw [toRat_sum_append, h, h', Int.cast_add, add_mul]

theorem IsCents.sum_singleton {n : Int} (h : d.IsCents n) : (sum [d]).IsCents n := by
  unfold IsCents IsUnits
  rw [toRat_sum_cons, toRat_sum_nil, add_zero]
  exact h

/-- A value that fits a `Numeric(18, 2)` column. -/
def IsNumeric (d : Decimal) : Prop :=
  ∃ n : Int, d.IsCents n ∧ n.natAbs < 10 ^ 18

theorem IsCents.toNumeric {n : Int} (h : d.IsCents n) : d.toNumeric = ⟨n, -2⟩ := by
  unfold Decimal.toNumeric
  split
  · next hexp => rw [← h.eq_scaled hexp]
  · next hexp => rw [h.coeff_eq (by omega), divHalfAway_of_dvd (by positivity)]

theorem IsUnits.toIntegral {n : Int} (h : d.IsUnits n 0) : d.toIntegral = n := by
  unfold Decimal.toIntegral
  split
  · next hexp =>
    rw [h.eq_scaled hexp, scaled]
    simp
  · next hexp =>
    rw [h.coeff_eq (by omega)]
    simp only [zero_sub]
    exact divHalfEven_of_dvd (by positivity)

/-- `_as_cents` of a whole number of cents. -/
theorem IsCents.asCents {n : Int} (h : d.IsCents n) (hn : n.natAbs < 10 ^ 28) : d.asCents = n := by
  have hunits : IsUnits ⟨d.coeff * 100, d.exp + 0⟩ n 0 := by
    have hmul := toRat_coeff_mul d 100
    have hhundred : (100 : Decimal).toRat = 100 := by
      change ((100 : Int) : ℚ) * 10 ^ (0 : Int) = 100
      norm_num
    have hcents := isCents_iff.1 h
    unfold IsUnits
    refine hmul.trans ?_
    rw [hhundred, hcents, zpow_zero, mul_one]
    field_simp
  exact IsUnits.toIntegral ((toRat_fix hunits hn (by decide)).trans hunits)

theorem IsCents.unique {m n : Int} (hm : d.IsCents m) (hn : d.IsCents n) : m = n :=
  Int.cast_injective (mul_right_cancel₀ (ten_zpow_pos (-2)).ne' (hm.symm.trans hn))

end Decimal

end PaymentsLab
