import Mathlib.Data.List.Induction
import PaymentsLab.Api.AmlHistory

/-!
# Malformed histories

`_sum_recent` and `_count_near` over any texts. Entries that do not parse are skipped, but `Decimal`
parses more than `record_outgoing` writes: the rules go on as if the malformed entries were not
there exactly if no entry they look at is a NaN, none they sum is infinite, and no sum overflows
(`malformed_entries_harmless_iff`).
-/

namespace PaymentsLab

open Foundation Program ApiProgram

/-! ## Decimals that are not finite -/

namespace DecimalValue

def isFinite : DecimalValue → Bool
  | .finite _ => true
  | _ => false

def isNan : DecimalValue → Bool
  | .nan _ => true
  | _ => false

/-- The value is too large for the context. -/
def Overflows (d : Decimal) : Prop :=
  d.coeff ≠ 0 ∧ contextEmax < adjusted d

/-- A sum is finite exactly if its operands are and it does not overflow. -/
theorem add_eq_some_finite {a b : DecimalValue} {d : Decimal} :
    a.add b = some (.finite d) ↔
      ∃ x y, a = .finite x ∧ b = .finite y ∧ ¬ Overflows (x + y) ∧ d = x + y := by
  constructor
  · intro h
    cases a with
    | finite x =>
      cases b with
      | finite y =>
        simp only [add] at h
        split at h
        · cases h
        next hfits =>
          cases h
          exact ⟨x, y, rfl, rfl, hfits, rfl⟩
      | infinite s => cases h
      | nan s => cases s <;> cases h
    | infinite s =>
      cases b with
      | finite y => cases h
      | infinite t =>
        simp only [add] at h
        split at h <;> cases h
      | nan t => cases t <;> cases h
    | nan s =>
      cases b with
      | finite y => cases s <;> cases h
      | infinite t => cases s <;> cases h
      | nan t => cases s <;> cases t <;> cases h
  · rintro ⟨x, y, rfl, rfl, hfits, rfl⟩
    exact if_neg hfits

end DecimalValue

namespace AmlRuleEngine

open DecimalValue

/-! ## The amounts the rules look at -/

/-- The amounts of the entries of the rail at or after the cutoff. -/
def selectedAmounts (rail : String) (cutoff : Int) (entries : List StoredText) :
    List DecimalValue :=
  entries.filterMap fun text => (tryParseEntry text).bind fun (timestamp, currentRail, amount) =>
    if cutoff ≤ timestamp ∧ currentRail = rail then some amount else none

/-- The entry parses as an integer, a rail and a finite decimal. -/
def wellFormed (text : StoredText) : Bool :=
  (tryParseEntry text).any fun (_, _, amount) => amount.isFinite

/-- `total += amount` for each amount. -/
def addAmounts (total : DecimalValue) (amounts : List DecimalValue) : ApiProgram DecimalValue :=
  amounts.foldlM (fun total amount => decimal (total.add amount)) total

/-- `count += 1` for each amount near the maximum. -/
def countAmounts (low high : Decimal) (count : Int) (amounts : List DecimalValue) :
    ApiProgram Int :=
  amounts.foldlM (fun count amount => do
    let near ← between low high amount
    pure (if near then count + 1 else count)) count

section Selected

variable (rail : String) (cutoff : Int) (entries : List StoredText)

theorem sumRecentFrom_eq_addAmounts (total : DecimalValue) :
    sumRecentFrom rail cutoff total entries =
      addAmounts total (selectedAmounts rail cutoff entries) := by
  induction entries generalizing total with
  | nil => rfl
  | cons text entries ih =>
    unfold selectedAmounts
    rw [List.filterMap_cons]
    simp only [sumRecentFrom]
    cases hparse : tryParseEntry text with
    | none => exact ih total
    | some parsed =>
      obtain ⟨timestamp, currentRail, amount⟩ := parsed
      simp only [Option.bind_some]
      by_cases hrecent : cutoff ≤ timestamp ∧ currentRail = rail
      · simp only [if_pos hrecent]
        unfold addAmounts
        rw [List.foldlM_cons]
        exact congrArg _ (funext ih)
      · simp only [if_neg hrecent]
        exact ih total

theorem countNearFrom_eq_countAmounts (low high : Decimal) (count : Int) :
    countNearFrom rail cutoff low high count entries =
      countAmounts low high count (selectedAmounts rail cutoff entries) := by
  induction entries generalizing count with
  | nil => rfl
  | cons text entries ih =>
    unfold selectedAmounts
    rw [List.filterMap_cons]
    simp only [countNearFrom]
    cases hparse : tryParseEntry text with
    | none => exact ih count
    | some parsed =>
      obtain ⟨timestamp, currentRail, amount⟩ := parsed
      simp only [Option.bind_some]
      by_cases hold : timestamp < cutoff ∨ currentRail ≠ rail
      · have hrecent : ¬ (cutoff ≤ timestamp ∧ currentRail = rail) := by
          rintro ⟨hle, hrail⟩
          exact hold.elim (Int.not_lt.2 hle) fun hne => hne hrail
        simp only [if_pos hold, if_neg hrecent]
        exact ih count
      · have hrecent : cutoff ≤ timestamp ∧ currentRail = rail := by
          rw [not_or, Int.not_lt, not_not] at hold
          exact hold
        simp only [if_neg hold, if_pos hrecent]
        unfold countAmounts
        rw [List.foldlM_cons, bind_assoc]
        exact congrArg _ (funext fun near => by rw [pure_bind]; exact ih _)

/-- Without the malformed entries the finite amounts are left. -/
theorem selectedAmounts_filter :
    selectedAmounts rail cutoff (entries.filter wellFormed) =
      (selectedAmounts rail cutoff entries).filter isFinite := by
  unfold selectedAmounts
  rw [List.filterMap_filter, List.filter_filterMap]
  refine congrArg (fun f => List.filterMap f entries) (funext fun text => ?_)
  unfold wellFormed
  cases hparse : tryParseEntry text with
  | none => simp
  | some parsed =>
    obtain ⟨timestamp, currentRail, amount⟩ := parsed
    simp only [Option.any_some, Option.bind_some]
    by_cases hrecent : cutoff ≤ timestamp ∧ currentRail = rail
    · simp [hrecent, Option.filter]
    · simp [hrecent]

end Selected

/-! ## Sums -/

/-- The sum of amounts in their order, rounded as the context does after each of them. -/
def roundedSum (amounts : List Decimal) : Decimal :=
  amounts.foldl (· + ·) 0

/-- No sum of the first amounts overflows. -/
def SumsFit (amounts : List Decimal) : Prop :=
  ∀ first, first <+: amounts → ¬ Overflows (roundedSum first)

theorem sumsFit_concat {amounts : List Decimal} {amount : Decimal} :
    SumsFit (amounts ++ [amount]) ↔
      SumsFit amounts ∧ ¬ Overflows (roundedSum amounts + amount) := by
  have hsum : roundedSum (amounts ++ [amount]) = roundedSum amounts + amount := by
    unfold roundedSum
    rw [List.foldl_concat]
  constructor
  · intro h
    refine ⟨fun first hfirst => h first (hfirst.trans (List.prefix_append _ _)), ?_⟩
    rw [← hsum]
    exact h _ (List.prefix_refl _)
  · rintro ⟨hfits, hlast⟩ first hfirst
    obtain rfl | hfirst := List.prefix_concat_iff.1 hfirst
    · rw [hsum]
      exact hlast
    · exact hfits first hfirst

/-- A program that returns at once, after another, follows one that does. -/
theorem bind_eq_pure {α β : Type} {p : ApiProgram α} {f : α → ApiProgram β} {b : β} :
    p >>= f = pure b ↔ ∃ a, p = pure a ∧ f a = pure b := by
  constructor
  · intro h
    cases p with
    | ret a => exact ⟨a, rfl, h⟩
    | raise e => cases h
    | call c next => cases h
  · rintro ⟨a, rfl, h⟩
    exact h

theorem decimal_eq_pure {α : Type} {o : Option α} {a : α} : decimal o = pure a ↔ o = some a := by
  cases o with
  | none =>
    constructor
    · intro h
      cases h
    · intro h
      cases h
  | some a' =>
    constructor
    · intro h
      cases h
      rfl
    · intro h
      cases h
      rfl

/-- A sum is finite exactly if all amounts are finite and no sum on the way to it overflows. The
induction is on the last amount. -/
theorem addAmounts_eq_finite {amounts : List DecimalValue} {total : Decimal} :
    addAmounts (.finite 0) amounts = pure (.finite total) ↔
      ∃ ds : List Decimal, amounts = ds.map .finite ∧ SumsFit ds ∧ total = roundedSum ds := by
  unfold addAmounts
  induction amounts using List.reverseRecOn generalizing total with
  | nil =>
    constructor
    · intro h
      cases h
      refine ⟨[], rfl, fun first hfirst hover => ?_, rfl⟩
      cases List.prefix_nil.1 hfirst
      exact hover.1 rfl
    · rintro ⟨ds, hds, -, rfl⟩
      cases List.map_eq_nil_iff.1 hds.symm
      rfl
  | append_singleton amounts amount ih =>
    rw [List.foldlM_append, bind_eq_pure]
    simp only [List.foldlM_cons, List.foldlM_nil, bind_pure, decimal_eq_pure, add_eq_some_finite]
    constructor
    · rintro ⟨_, hsum, x, y, rfl, rfl, hfits, rfl⟩
      obtain ⟨ds, rfl, hds, rfl⟩ := ih.1 hsum
      refine ⟨ds ++ [y], by rw [List.map_append]; rfl, sumsFit_concat.2 ⟨hds, hfits⟩, ?_⟩
      unfold roundedSum
      rw [List.foldl_concat]
    · rintro ⟨ds, hds, hfits, rfl⟩
      obtain ⟨ds, last, rfl, rfl, hlast⟩ := List.map_eq_append_iff.1 hds.symm
      obtain ⟨d, rfl, rfl⟩ := List.map_eq_singleton_iff.1 hlast
      rw [sumsFit_concat] at hfits
      refine ⟨.finite (roundedSum ds), ih.2 ⟨ds, rfl, hfits.1, rfl⟩, roundedSum ds, d, rfl, rfl,
        hfits.2, ?_⟩
      unfold roundedSum
      rw [List.foldl_concat]

/-! ## Counts -/

/-- An amount that `_count_near` counts; an infinite one is never near. -/
def nearMaximum (low high : Decimal) : DecimalValue → Bool
  | .finite d => low ≤ d ∧ d ≤ high
  | _ => false

/-- `low <= amount <= high` signals for a NaN only. -/
theorem between_of_not_nan {amount : DecimalValue} (low high : Decimal)
    (h : amount.isNan = false) : between low high amount = pure (nearMaximum low high amount) := by
  unfold between
  cases amount with
  | finite d =>
    by_cases hlow : low ≤ d
    · simp [AmlRuleEngine.decimal, le?, hlow, nearMaximum]
    · simp [AmlRuleEngine.decimal, le?, hlow, nearMaximum]
  | infinite s => cases s <;> rfl
  | nan s => cases h

theorem between_of_nan {amount : DecimalValue} (low high : Decimal) (h : amount.isNan = true) :
    between low high amount = throw .decimalSignal := by
  cases amount with
  | finite d => cases h
  | infinite s => cases h
  | nan s => rfl

/-- A count is made exactly if no amount is a NaN, and counts the amounts near the maximum. -/
theorem countAmounts_eq_pure {low high : Decimal} {amounts : List DecimalValue}
    {start count : Int} :
    countAmounts low high start amounts = pure count ↔
      (∀ amount ∈ amounts, amount.isNan = false) ∧
        count = start + amounts.countP (nearMaximum low high) := by
  unfold countAmounts
  induction amounts generalizing start with
  | nil =>
    constructor
    · intro h
      cases h
      exact ⟨List.forall_mem_nil _, (Int.add_zero _).symm⟩
    · rintro ⟨-, rfl⟩
      exact congrArg pure (Int.add_zero _).symm
  | cons amount amounts ih =>
    rw [List.foldlM_cons, bind_assoc, List.forall_mem_cons, List.countP_cons]
    by_cases hnan : amount.isNan = true
    · rw [between_of_nan low high hnan]
      constructor
      · intro h
        cases h
      · rintro ⟨⟨hnot, -⟩, -⟩
        cases hnan.symm.trans hnot
    · rw [Bool.not_eq_true] at hnan
      simp only [between_of_not_nan low high hnan, pure_bind, ih, hnan, true_and]
      refine and_congr_right fun _ => ?_
      split
      · push_cast
        omega
      · push_cast
        omega

/-! ## Malformed entries -/

/-- The comparison of `evaluate` with the threshold. -/
def exceeds (total : DecimalValue) (amount threshold : Decimal) : ApiProgram Bool := do
  let total ← decimal (total.add (.finite amount))
  decimal (total.gt? (.finite threshold))

theorem exceeds_finite {total amount threshold : Decimal} :
    (∃ above, exceeds (.finite total) amount threshold = pure above) ↔
      ¬ Overflows (total + amount) := by
  unfold exceeds
  constructor
  · rintro ⟨above, h⟩ hover
    have hadd : (finite total).add (.finite amount) = none := if_pos hover
    rw [hadd] at h
    cases h
  · intro hfits
    have hadd : (finite total).add (.finite amount) = some (.finite (total + amount)) :=
      if_neg hfits
    rw [hadd]
    exact ⟨_, rfl⟩

/-- Malformed entries are harmless: the sum is finite, the comparison with the threshold and the
count do not raise, and both results are those of the well-formed entries. -/
structure Harmless (entries : List StoredText) (rail : String) (totalCutoff nearCutoff : Int)
    (low high amount threshold : Decimal) : Prop where
  sum : ∃ total : Decimal, sumRecent entries rail totalCutoff = pure (.finite total) ∧
    sumRecent (entries.filter wellFormed) rail totalCutoff = pure (.finite total) ∧
    ∃ above, exceeds (.finite total) amount threshold = pure above
  count : ∃ count : Int, countNear entries rail nearCutoff low high = pure count ∧
    countNear (entries.filter wellFormed) rail nearCutoff low high = pure count

/-- Malformed entries are harmless exactly if the entries to be summed are finite, with sums that do
not overflow, up to the amount that is compared with the threshold, and none of those to be counted
is a NaN. -/
theorem malformed_entries_harmless_iff (entries : List StoredText) (rail : String)
    (totalCutoff nearCutoff : Int) (low high amount threshold : Decimal) :
    Harmless entries rail totalCutoff nearCutoff low high amount threshold ↔
      (∃ ds : List Decimal, selectedAmounts rail totalCutoff entries = ds.map .finite ∧
        SumsFit (ds ++ [amount])) ∧
      ∀ amount ∈ selectedAmounts rail nearCutoff entries, amount.isNan = false := by
  have hsum (entries : List StoredText) (total : Decimal) :
      sumRecent entries rail totalCutoff = pure (.finite total) ↔
        ∃ ds : List Decimal, selectedAmounts rail totalCutoff entries = ds.map .finite ∧
          SumsFit ds ∧ total = roundedSum ds := by
    unfold sumRecent
    rw [sumRecentFrom_eq_addAmounts]
    exact addAmounts_eq_finite
  have hcount (entries : List StoredText) (count : Int) :
      countNear entries rail nearCutoff low high = pure count ↔
        (∀ amount ∈ selectedAmounts rail nearCutoff entries, amount.isNan = false) ∧
          count = 0 + (selectedAmounts rail nearCutoff entries).countP (nearMaximum low high) := by
    unfold countNear
    rw [countNearFrom_eq_countAmounts]
    exact countAmounts_eq_pure
  constructor
  · rintro ⟨⟨total, htotal, -, habove⟩, count, hcounted, -⟩
    obtain ⟨ds, hds, hfits, rfl⟩ := (hsum entries total).1 htotal
    exact ⟨⟨ds, hds, sumsFit_concat.2 ⟨hfits, exceeds_finite.1 habove⟩⟩,
      ((hcount entries count).1 hcounted).1⟩
  · rintro ⟨⟨ds, hds, hfits⟩, hnan⟩
    rw [sumsFit_concat] at hfits
    have hfinite : (ds.map DecimalValue.finite).filter isFinite = ds.map .finite := by
      rw [List.filter_eq_self]
      rintro _ hmem
      obtain ⟨d, -, rfl⟩ := List.mem_map.1 hmem
      rfl
    have hnear : ((selectedAmounts rail nearCutoff entries).filter isFinite).countP
        (nearMaximum low high) =
        (selectedAmounts rail nearCutoff entries).countP (nearMaximum low high) := by
      rw [List.countP_filter]
      refine List.countP_congr fun v _ => ?_
      cases v with
      | finite d => simp [isFinite]
      | infinite s | nan s => simp [nearMaximum]
    refine ⟨⟨roundedSum ds, (hsum _ _).2 ⟨ds, hds, hfits.1, rfl⟩,
      (hsum _ _).2 ⟨ds, ?_, hfits.1, rfl⟩, exceeds_finite.2 hfits.2⟩,
      _, (hcount _ _).2 ⟨hnan, rfl⟩, (hcount _ _).2 ⟨?_, ?_⟩⟩
    · rw [selectedAmounts_filter, hds, hfinite]
    · rw [selectedAmounts_filter]
      exact fun v hv => hnan v (List.mem_of_mem_filter hv)
    · rw [selectedAmounts_filter, hnear]

/-- One stored text with a NaN for an amount is enough. -/
theorem nan_entry_raises : ¬ ∀ (entries : List StoredText) (rail : String)
    (totalCutoff nearCutoff : Int) (low high amount threshold : Decimal),
    Harmless entries rail totalCutoff nearCutoff low high amount threshold := by
  intro h
  have hselected : selectedAmounts "PIX" 0 [.text "100|PIX|NaN"] = [.nan false] := by decide
  obtain ⟨⟨total, htotal, -⟩, -⟩ := h [.text "100|PIX|NaN"] "PIX" 0 0 ⟨95, -2⟩ 1 1 1
  unfold sumRecent at htotal
  rw [sumRecentFrom_eq_addAmounts, hselected] at htotal
  obtain ⟨ds, hds, -⟩ := addAmounts_eq_finite.1 htotal
  cases ds <;> cases hds

end AmlRuleEngine

end PaymentsLab
