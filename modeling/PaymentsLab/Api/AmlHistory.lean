import PaymentsLab.Api.DailyTotal
import PaymentsLab.Foundation.Matching

/-!
# What the AML rules read from a history

`_sum_recent` and `_count_near` over the entries of payments of whole cents, and the rows those
entries are of. A list that has an entry for each row of a window gives no smaller a total, and no
smaller a count, than the rows (`sumRecent_covers`, `countNear_covers`).
-/

namespace PaymentsLab

open Foundation

/-! ## Sums that do not overflow -/

namespace DecimalValue

/-- The exponent of the first digit is below that of a bound on the value. -/
theorem adjusted_lt {d : Decimal} {k : Int} (hcoeff : d.coeff ≠ 0) (h : |d.toRat| < 10 ^ k) :
    adjusted d < k := by
  by_contra hle
  obtain ⟨digits, hdigits⟩ : ∃ digits, (Nat.toDigits 10 d.coeff.natAbs).length = digits := ⟨_, rfl⟩
  have hpos : 0 < digits := by
    rw [← hdigits]
    exact Nat.length_toDigits_pos
  have hlarge : 10 ^ (digits - 1) ≤ d.coeff.natAbs := by
    by_contra hlt
    rcases Nat.eq_zero_or_pos (digits - 1) with hzero | hpos'
    · rw [hzero, pow_zero] at hlt
      omega
    · have hshort := (Nat.length_toDigits_le_iff (by decide) hpos').2 (Nat.not_le.1 hlt)
      omega
  have hcast : ((10 : ℚ) ^ (digits - 1)) ≤ |(d.coeff : ℚ)| := by
    rw [← Int.cast_abs, Int.abs_eq_natAbs]
    exact_mod_cast hlarge
  have hvalue : |d.toRat| = |(d.coeff : ℚ)| * 10 ^ d.exp := by
    unfold Decimal.toRat
    rw [abs_mul, abs_of_pos (Decimal.ten_zpow_pos _)]
  have hadjusted : (10 : ℚ) ^ k ≤ 10 ^ (digits - 1) * 10 ^ d.exp := by
    rw [← zpow_natCast, ← zpow_add₀ (by norm_num)]
    refine zpow_le_zpow_right₀ (by norm_num) ?_
    unfold adjusted at hle
    omega
  have hmul := mul_le_mul_of_nonneg_right hcast (Decimal.ten_zpow_pos d.exp).le
  linarith

/-- A sum of whole cents within the precision of the context. -/
theorem add_cents {a b : Decimal} {m n : Int} (ha : a.IsCents m) (hb : b.IsCents n)
    (hmn : (m + n).natAbs < 10 ^ 28) :
    (finite a).add (finite b) = some (.finite (a + b)) := by
  have hsum := ha.add hb hmn
  simp only [add]
  refine if_neg fun hover => ?_
  have hlt : |(a + b).toRat| < 10 ^ (26 : Int) := by
    have hcast : |((m + n : Int) : ℚ)| < 10 ^ 28 := by
      rw [← Int.cast_abs, Int.abs_eq_natAbs]
      exact_mod_cast hmn
    rw [Decimal.isCents_iff.1 hsum, abs_div, abs_of_pos (by norm_num : (0 : ℚ) < 100),
      div_lt_iff₀ (by norm_num)]
    exact hcast.trans_le (by norm_num)
  have hadjusted := adjusted_lt hover.1 hlt
  unfold contextEmax at hover
  omega

end DecimalValue

/-! ## Entries -/

open Decimal AmlRuleEngine

/-- The text is one that `record_outgoing` writes. -/
def IsEntry (text : StoredText) : Prop :=
  ∃ timestamp rail amount, text = .amlEntry timestamp rail amount

/-- The entry of a payment of whole cents, within a `Numeric(18, 2)` column. -/
def IsPaymentEntry (text : StoredText) : Prop :=
  ∃ timestamp rail amount m, text = .amlEntry timestamp rail amount ∧ amount.IsCents m ∧ 0 < m ∧
    m < 10 ^ 18

/-- The entry is that of the row, and no older. -/
def RecordedAs (row : Payment) (text : StoredText) : Prop :=
  ∃ timestamp amount m, text = .amlEntry timestamp row.method amount ∧ amount.IsCents m ∧
    row.amount.IsCents m ∧ wholeSeconds row.createdAt ≤ timestamp

theorem IsPaymentEntry.isEntry {text : StoredText} (h : IsPaymentEntry text) : IsEntry text := by
  obtain ⟨timestamp, rail, amount, -, rfl, -⟩ := h
  exact ⟨timestamp, rail, amount, rfl⟩

/-- What an entry adds to the total. -/
def recentAmount (rail : String) (cutoff : Int) : StoredText → Decimal
  | .amlEntry timestamp currentRail amount =>
    if cutoff ≤ timestamp ∧ currentRail.value = rail then amount else 0
  | _ => 0

/-- The entry counts as one near the maximum. -/
def isNear (rail : String) (cutoff : Int) (low high : Decimal) : StoredText → Bool
  | .amlEntry timestamp currentRail amount =>
    ¬ (timestamp < cutoff ∨ currentRail.value ≠ rail) ∧ low ≤ amount ∧ amount ≤ high
  | _ => false

section Entries

variable (rail : String) (cutoff : Int) {entries : List StoredText}

theorem recentAmount_nonneg (hentries : ∀ text ∈ entries, IsPaymentEntry text) :
    ∀ text ∈ entries, 0 ≤ (recentAmount rail cutoff text).toRat := by
  intro text htext
  obtain ⟨timestamp, rail', amount, m, rfl, hamount, hm, -⟩ := hentries text htext
  have hcast : (0 : ℚ) ≤ m := by exact_mod_cast hm.le
  simp only [recentAmount]
  split
  · rw [isCents_iff.1 hamount]
    positivity
  · exact toRat_zero.ge

/-- The loop of `_sum_recent` adds up exactly. -/
theorem sumRecentFrom_eq {total : Decimal} {n : Int} 
    (hentries : ∀ text ∈ entries, IsPaymentEntry text) (htotal : total.IsCents n) (hn : 0 ≤ n)
    (hbound : n + entries.length * 10 ^ 18 < 10 ^ 28) :
    ∃ sum : Decimal, sumRecentFrom rail cutoff (.finite total) entries = pure (.finite sum) ∧
      sum.toRat = total.toRat + (Decimal.sum (entries.map (recentAmount rail cutoff))).toRat := by
  induction entries generalizing total n with
  | nil => exact ⟨total, rfl, by rw [List.map_nil, toRat_sum_nil, add_zero]⟩
  | cons text entries ih =>
    have hrest := fun text htext => hentries text (List.mem_cons_of_mem _ htext)
    obtain ⟨timestamp, rail', amount, m, rfl, hamount, hm, hm'⟩ :=
      hentries text List.mem_cons_self
    rw [List.length_cons] at hbound
    push_cast at hbound
    by_cases hrecent : cutoff ≤ timestamp ∧ rail'.value = rail
    · have hsum := htotal.add hamount (by omega)
      obtain ⟨sum, hrun, hvalue⟩ := ih hrest hsum (by omega) (by omega)
      refine ⟨sum, ?_, ?_⟩
      · simp only [sumRecentFrom, tryParseEntry, if_pos hrecent,
          DecimalValue.add_cents htotal hamount (by omega)]
        exact hrun
      · rw [hvalue, List.map_cons, toRat_sum_cons, recentAmount, if_pos hrecent, ← add_assoc]
        have hadd : (total + amount).toRat = total.toRat + amount.toRat := by
          rw [isCents_iff.1 hsum, isCents_iff.1 htotal, isCents_iff.1 hamount]
          push_cast
          ring
        rw [hadd]
    · obtain ⟨sum, hrun, hvalue⟩ := ih hrest htotal hn (by omega)
      refine ⟨sum, ?_, ?_⟩
      · simp only [sumRecentFrom, tryParseEntry, if_neg hrecent]
        exact hrun
      · rw [hvalue, List.map_cons, toRat_sum_cons, recentAmount, if_neg hrecent, toRat_zero,
          zero_add]

/-- The loop of `_count_near` counts. -/
theorem countNearFrom_eq (low high : Decimal) (count : Int)
    (hentries : ∀ text ∈ entries, IsEntry text) :
    countNearFrom rail cutoff low high count entries =
      pure (count + entries.countP (isNear rail cutoff low high)) := by
  induction entries generalizing count with
  | nil => simp [countNearFrom]
  | cons text entries ih =>
    have hrest := fun text htext => hentries text (List.mem_cons_of_mem _ htext)
    obtain ⟨timestamp, rail', amount, rfl⟩ := hentries text List.mem_cons_self
    by_cases hold : timestamp < cutoff ∨ rail'.value ≠ rail
    · have hnear : ¬ isNear rail cutoff low high (.amlEntry timestamp rail' amount) = true := by
        simp [isNear, hold]
      rw [List.countP_cons_of_neg hnear]
      simp only [countNearFrom, tryParseEntry, if_pos hold]
      exact ih count hrest
    · have hbetween : between low high (.finite amount) =
          pure (decide (low ≤ amount ∧ amount ≤ high)) := by
        by_cases hlow : low ≤ amount <;>
          simp [between, AmlRuleEngine.decimal, DecimalValue.le?, hlow]
      have hnear : isNear rail cutoff low high (.amlEntry timestamp rail' amount) =
          decide (low ≤ amount ∧ amount ≤ high) := by
        simp [isNear, hold]
      rw [List.countP_cons, hnear]
      simp only [countNearFrom, tryParseEntry, if_neg hold, hbetween, pure_bind]
      rw [ih _ hrest]
      refine congrArg pure ?_
      push_cast
      split <;> omega

end Entries

/-! ## The rows of a window -/

section Window

variable {db : Database} {customerId : String} {rail : PaymentMethod} {since : Instant}
  {live : List Payment} {entries : List StoredText} {cutoff : Int} {row : Payment}
  {text : StoredText}

/-- A row of the window is recorded by an entry of its amount that is not too old. -/
theorem RecordedAs.entry_of_outgoing (hrow : row ∈ db.outgoingSince customerId rail since)
    (hcutoff : ∀ t, since ≤ t → cutoff ≤ wholeSeconds t) (h : RecordedAs row text) :
    ∃ timestamp amount, text = .amlEntry timestamp rail amount ∧ cutoff ≤ timestamp ∧
      amount.toRat = row.amount.toRat := by
  obtain ⟨timestamp, amount, m, rfl, hamount, hrow', htimestamp⟩ := h
  obtain ⟨-, hmethod, hsince, -⟩ := of_decide_eq_true (List.mem_filter.1 hrow).2
  subst hmethod
  exact ⟨timestamp, amount, rfl, (hcutoff _ hsince).trans htimestamp, hamount.trans hrow'.symm⟩

variable (hentries : ∀ text ∈ entries, IsPaymentEntry text)
  (hlive : List.SublistForall₂ RecordedAs live entries)
  (hrows : (db.outgoingSince customerId rail since).Nodup)
  (hsubset : db.outgoingSince customerId rail since ⊆ live)
  (hcutoff : ∀ t, since ≤ t → cutoff ≤ wholeSeconds t)

include hentries hlive hrows hsubset hcutoff

/-- A list that has an entry for each row of the window gives no smaller a total. -/
theorem sumRecent_covers (hlength : entries.length ≤ 10 ^ 9) :
    ∃ total : Decimal, sumRecent entries rail.value cutoff = pure (.finite total) ∧
      db.sumOutgoingSince customerId rail since ≤ total := by
  obtain ⟨total, hrun, hvalue⟩ :=
    sumRecentFrom_eq rail.value cutoff hentries isCents_zero le_rfl (by omega)
  obtain ⟨rows, hperm, hmatched⟩ := exists_perm_sublistForall₂ hrows hsubset hlive
  have hle : ∀ row ∈ rows, ∀ text ∈ entries, RecordedAs row text →
      row.amount.toRat ≤ (recentAmount rail.value cutoff text).toRat := by
    intro row hrow text _ hrecorded
    obtain ⟨timestamp, amount, rfl, htimestamp, hamount⟩ :=
      hrecorded.entry_of_outgoing (hperm.mem_iff.1 hrow) hcutoff
    simp only [recentAmount, htimestamp, true_and, if_true]
    exact hamount.ge
  have hsum := toRat_sum_le_of_sublistForall₂ hmatched hle
    (recentAmount_nonneg rail.value cutoff hentries)
  refine ⟨total, hrun, ?_⟩
  rw [le_iff_toRat, hvalue, toRat_zero, zero_add]
  unfold Database.sumOutgoingSince
  rw [toRat_sum_perm (hperm.map _).symm]
  exact hsum

/-- A list that has an entry for each row of the window gives no smaller a count. -/
theorem countNear_covers (low high : Decimal) :
    ∃ count : Int, countNear entries rail.value cutoff low high = pure count ∧
      db.countNearThresholdSince customerId rail since low high ≤ count := by
  refine ⟨_, countNearFrom_eq rail.value cutoff low high 0
    (fun text htext => (hentries text htext).isEntry), ?_⟩
  obtain ⟨rows, hperm, hmatched⟩ := exists_perm_sublistForall₂ hrows hsubset hlive
  have hcount := countP_le_of_sublistForall₂ (p := fun row : Payment =>
    decide (low ≤ row.amount ∧ row.amount ≤ high)) (q := isNear rail.value cutoff low high) hmatched
    fun row hrow text hrecorded hnear => ?_
  · rw [hperm.countP_eq, List.countP_eq_length_filter] at hcount
    unfold Database.countNearThresholdSince
    omega
  · obtain ⟨timestamp, amount, rfl, htimestamp, hamount⟩ :=
      hrecorded.entry_of_outgoing (hperm.mem_iff.1 hrow) hcutoff
    obtain ⟨hlow, hhigh⟩ := of_decide_eq_true hnear
    rw [le_iff_toRat, ← hamount, ← le_iff_toRat] at hlow hhigh
    simp [isNear, hlow, hhigh, htimestamp]

end Window

end PaymentsLab
