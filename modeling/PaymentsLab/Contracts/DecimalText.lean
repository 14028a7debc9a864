import Mathlib.Data.List.TakeDrop
import PaymentsLab.Contracts.PythonText

/-!
# Numbers written and read again

`str` of an integer and of a decimal, and the round trips through `int(text)` and `Decimal(text)`
(`pythonInt?_pythonIntText`, `ofText?_toText`). A decimal is written as `decimal.Decimal.__str__`
does: in plain notation as long as its exponent is not positive and its first digit not too far
behind the point, and in scientific notation otherwise.
-/

namespace PaymentsLab

/-- `str` of a natural number. -/
abbrev natText (n : Nat) : List Char :=
  Nat.toDigits 10 n

/-- `str` of an integer. -/
def pythonIntText (n : Int) : List Char :=
  if n < 0 then '-' :: natText n.natAbs else natText n.natAbs

/-- `"%+d"` of an integer. -/
def signedIntText (n : Int) : List Char :=
  if n < 0 then '-' :: natText n.natAbs else '+' :: natText n.natAbs

namespace Decimal

/-- The digits of the coefficient. -/
def digits (d : Decimal) : List Char :=
  natText d.coeff.natAbs

/-- The number of digits to the left of the point in plain notation. -/
def leftDigits (d : Decimal) : Int :=
  d.exp + d.digits.length

/-- The number of digits that are written to the left of the point. -/
def dotPlace (d : Decimal) : Int :=
  if d.exp ≤ 0 ∧ -6 < d.leftDigits then d.leftDigits else 1

def intPart (d : Decimal) : List Char :=
  if d.dotPlace ≤ 0 then ['0']
  else if d.digits.length ≤ d.dotPlace then
    d.digits ++ List.replicate (d.dotPlace - d.digits.length).toNat '0'
  else d.digits.take d.dotPlace.toNat

def fracPart (d : Decimal) : List Char :=
  if d.dotPlace ≤ 0 then '.' :: (List.replicate (-d.dotPlace).toNat '0' ++ d.digits)
  else if d.digits.length ≤ d.dotPlace then []
  else '.' :: d.digits.drop d.dotPlace.toNat

def exponentPart (d : Decimal) : List Char :=
  if d.leftDigits = d.dotPlace then [] else 'E' :: signedIntText (d.leftDigits - d.dotPlace)

/-- `str` of a decimal. -/
def toText (d : Decimal) : List Char :=
  (if d.coeff < 0 then ['-'] else []) ++ d.intPart ++ d.fracPart ++ d.exponentPart

example : toText ⟨1050, -2⟩ = "10.50".toList := by decide

example : toText ⟨-5, -9⟩ = "-5E-9".toList := by decide

example : toText ⟨120, 3⟩ = "1.20E+5".toList := by decide

end Decimal

/-! ## Digits -/

/-- An ASCII digit. -/
def IsAsciiDigit (c : Char) : Prop :=
  c.isDigit = true

theorem IsAsciiDigit.bounds {c : Char} (h : IsAsciiDigit c) : 48 ≤ c.toNat ∧ c.toNat ≤ 57 := by
  simp only [IsAsciiDigit, Char.isDigit, Bool.and_eq_true, decide_eq_true_eq] at h
  exact h

theorem isAsciiDigit_zero : IsAsciiDigit '0' :=
  rfl

/-- What is not an ASCII digit. -/
theorem IsAsciiDigit.ne {c c' : Char} (h : IsAsciiDigit c) (h' : c'.isDigit = false) : c ≠ c' := by
  rintro rfl
  cases h.symm.trans h'

theorem IsAsciiDigit.not_space {c : Char} (h : IsAsciiDigit c) : isPythonSpace c = false := by
  obtain ⟨hlow, hhigh⟩ := h.bounds
  unfold isPythonSpace
  simp only [decide_eq_false_iff_not]
  omega

theorem IsAsciiDigit.toLower {c : Char} (h : IsAsciiDigit c) : c.toLower = c := by
  obtain ⟨hlow, hhigh⟩ := h.bounds
  unfold Char.toLower
  refine dif_neg fun hupper => ?_
  have hlow' : 65 ≤ c.toNat := hupper.1
  omega

theorem IsAsciiDigit.digitValue? {c : Char} (h : IsAsciiDigit c) :
    PaymentsLab.digitValue? c = some (c.toNat - '0'.toNat) := by
  obtain ⟨hlow, hhigh⟩ := h.bounds
  have hfirst : (decimalZeros.find? fun z => z ≤ c.toNat ∧ c.toNat < z + 10) = some 0x30 :=
    List.find?_cons_of_pos (decide_eq_true ⟨hlow, by omega⟩)
  rw [PaymentsLab.digitValue?, hfirst]
  rfl

/-- A text in which lower case changes nothing. -/
theorem map_toLower_eq_self {s : List Char} (h : ∀ c ∈ s, c.toLower = c) :
    s.map Char.toLower = s :=
  (List.map_congr_left h).trans (List.map_id' s)

theorem isAsciiDigit_of_mem_natText {n : Nat} {c : Char} (h : c ∈ natText n) : IsAsciiDigit c :=
  Nat.isDigit_of_mem_toDigits (by decide) (by decide) h

/-- Digits denote the number the standard library reads. -/
theorem digitsValue?_of_digits {s : List Char} (h : ∀ c ∈ s, IsAsciiDigit c) :
    digitsValue? s = some (Nat.ofDigitChars 10 s 0) := by
  have hvalues : s.mapM digitValue? = some (s.map fun c => c.toNat - '0'.toNat) := by
    induction s with
    | nil => rfl
    | cons c s ih =>
      rw [List.mapM_cons, (h c List.mem_cons_self).digitValue?,
        ih fun c' hc' => h c' (List.mem_cons_of_mem _ hc')]
      rfl
  rw [digitsValue?, hvalues, Option.map_some, List.foldl_map]
  rfl

theorem digitsValue?_natText (n : Nat) : digitsValue? (natText n) = some n := by
  rw [digitsValue?_of_digits fun _ => isAsciiDigit_of_mem_natText, Nat.ofDigitChars_ten_toDigits]

/-- Leading zeros do not count. -/
theorem digitsValue?_zeros (k n : Nat) :
    digitsValue? (List.replicate k '0' ++ natText n) = some n := by
  have hdigits : ∀ c ∈ List.replicate k '0' ++ natText n, IsAsciiDigit c := by
    intro c hc
    rcases List.mem_append.1 hc with hzero | hdigit
    · rw [List.eq_of_mem_replicate hzero]
      exact isAsciiDigit_zero
    · exact isAsciiDigit_of_mem_natText hdigit
  rw [digitsValue?_of_digits hdigits, Nat.ofDigitChars_append, Nat.ofDigitChars_replicate_zero,
    Nat.mul_zero, Nat.ofDigitChars_ten_toDigits]

/-! ## White space -/

/-- A text without what is skipped stays as it is. -/
theorem stripOf_of_not_skipped {skipped : Char → Bool} {s : List Char}
    (h : ∀ c ∈ s, skipped c = false) : stripOf skipped s = s := by
  have hdrop {t : List Char} (ht : ∀ c ∈ t, skipped c = false) : t.dropWhile skipped = t := by
    cases t with
    | nil => rfl
    | cons c t => rw [List.dropWhile_cons_of_neg (by simp [ht c List.mem_cons_self])]
  unfold stripOf
  rw [hdrop h, hdrop fun c hc => h c (List.mem_reverse.1 hc), List.reverse_reverse]

/-- A text without white space is not stripped. -/
theorem pythonStrip_of_no_space {s : List Char} (h : ∀ c ∈ s, isPythonSpace c = false) :
    pythonStrip s = s :=
  stripOf_of_not_skipped h

theorem isIntSpace_eq_false {c : Char} (h : isPythonSpace c = false) : isIntSpace c = false := by
  unfold isIntSpace
  rw [h]
  exact decide_eq_false fun hspace => Bool.false_ne_true hspace.1

/-! ## Integers -/

theorem splitSign_of_digit {c : Char} (h : IsAsciiDigit c) (s : List Char) :
    splitSign (c :: s) = (false, c :: s) := by
  unfold splitSign
  split
  · next heq =>
    cases heq
    cases h
  · next heq =>
    cases heq
    cases h
  · rfl

theorem splitSign_natText (n : Nat) : splitSign (natText n) = (false, natText n) := by
  cases hdigits : natText n with
  | nil => exact absurd hdigits Nat.toDigits_ne_nil
  | cons c s =>
    exact splitSign_of_digit (isAsciiDigit_of_mem_natText (n := n) (by simp [hdigits])) s

theorem signed_natAbs (n : Int) : signed (decide (n < 0)) n.natAbs = n := by
  by_cases h : n < 0
  · rw [signed, decide_eq_true h, if_pos rfl]
    omega
  · rw [signed, decide_eq_false h, if_neg Bool.false_ne_true]
    omega

/-- The sign and the digits of a written integer. -/
theorem splitSign_pythonIntText (n : Int) :
    splitSign (pythonIntText n) = (decide (n < 0), natText n.natAbs) := by
  unfold pythonIntText
  split
  · next hneg => simp [splitSign, hneg]
  · next hpos => simp [splitSign_natText, hpos]

theorem splitSign_signedIntText (n : Int) :
    splitSign (signedIntText n) = (decide (n < 0), natText n.natAbs) := by
  unfold signedIntText
  split
  · next hneg => simp [splitSign, hneg]
  · next hpos => simp [splitSign, hpos]

/-- Characters of a written integer. -/
theorem mem_pythonIntText {n : Int} {c : Char} (h : c ∈ pythonIntText n) :
    c = '-' ∨ IsAsciiDigit c := by
  unfold pythonIntText at h
  split at h
  · rcases List.mem_cons.1 h with rfl | hdigit
    · exact .inl rfl
    · exact .inr (isAsciiDigit_of_mem_natText hdigit)
  · exact .inr (isAsciiDigit_of_mem_natText h)

/-- Integers of as many digits as `int` converts are read as they were written. -/
theorem pythonInt?_pythonIntText {n : Int} (h : (natText n.natAbs).length ≤ maxIntDigits) :
    pythonInt? (pythonIntText n) = some n := by
  have hspace : ∀ c ∈ pythonIntText n, isIntSpace c = false := by
    intro c hc
    rcases mem_pythonIntText hc with rfl | hdigit
    · rfl
    · exact isIntSpace_eq_false hdigit.not_space
  have hsplit : (natText n.natAbs).splitOn '_' = [natText n.natAbs] :=
    List.splitOn_eq_singleton fun hmem => (isAsciiDigit_of_mem_natText hmem).ne rfl rfl
  unfold pythonInt?
  rw [stripOf_of_not_skipped hspace, splitSign_pythonIntText]
  simp only [hsplit]
  rw [if_pos ⟨by simp, by simpa using h⟩]
  simp [digitsValue?_natText, signed_natAbs]

/-! ## Decimals -/

/-- The prefix before the first character that fails `p`. -/
theorem span_append {p : Char → Bool} {s rest : List Char} (hs : ∀ c ∈ s, p c = true)
    (hrest : ∀ c ∈ rest.head?, p c = false) : (s ++ rest).span p = (s, rest) := by
  have hempty : rest.takeWhile p = [] ∧ rest.dropWhile p = rest := by
    cases rest with
    | nil => exact ⟨rfl, rfl⟩
    | cons c rest =>
      have hc : ¬ p c = true := by simp [hrest c rfl]
      exact ⟨List.takeWhile_cons_of_neg hc, List.dropWhile_cons_of_neg hc⟩
  rw [List.span_eq_takeWhile_dropWhile, List.takeWhile_append_of_pos hs,
    List.dropWhile_append_of_pos hs, hempty.1, hempty.2, List.append_nil]

namespace Decimal

variable (d : Decimal)

theorem length_digits_pos : 0 < d.digits.length :=
  Nat.length_toDigits_pos

theorem isAsciiDigit_of_mem_digits {c : Char} (h : c ∈ d.digits) : IsAsciiDigit c :=
  isAsciiDigit_of_mem_natText h

/-- The digits of a decimal around its point: `fraction` is what follows the point, and the digits
without the point are those of the coefficient, after zeros. -/
structure Split (fraction : List Char) (zeros : Nat) : Prop where
  point : d.fracPart = [] ∧ fraction = [] ∨ d.fracPart = '.' :: fraction
  digits : d.intPart ++ fraction = List.replicate zeros '0' ++ d.digits
  length : (fraction.length : Int) = d.leftDigits - d.dotPlace - d.exp
  nonempty : d.intPart ≠ []

/-- The three places the point can have. -/
theorem exists_split : ∃ fraction zeros, d.Split fraction zeros := by
  have hpos := d.length_digits_pos
  have hplace : d.dotPlace = d.leftDigits ∧ d.exp ≤ 0 ∨ d.dotPlace = 1 := by
    unfold dotPlace
    split
    · next h => exact .inl ⟨rfl, h.1⟩
    · exact .inr rfl
  have hleft : d.leftDigits = d.exp + d.digits.length := rfl
  by_cases hbefore : d.dotPlace ≤ 0
  · -- the point stands before all digits
    refine ⟨List.replicate (-d.dotPlace).toNat '0' ++ d.digits, (-d.dotPlace).toNat + 1, ?_, ?_, ?_,
      ?_⟩
    · simp [fracPart, hbefore]
    · simp [intPart, hbefore, List.replicate_succ]
    · rw [List.length_append, List.length_replicate]
      omega
    · simp [intPart, hbefore]
  · by_cases hafter : (d.digits.length : Int) ≤ d.dotPlace
    · -- the point stands after all digits and is not written
      have hzeros : (d.dotPlace - d.digits.length).toNat = 0 := by omega
      refine ⟨[], 0, ?_, ?_, ?_, ?_⟩
      · simp [fracPart, hbefore, hafter]
      · simp [intPart, hbefore, hafter, hzeros]
      · rw [List.length_nil]
        omega
      · simpa [intPart, hbefore, hafter, hzeros] using List.ne_nil_of_length_pos hpos
    · -- the point stands among the digits
      refine ⟨d.digits.drop d.dotPlace.toNat, 0, ?_, ?_, ?_, ?_⟩
      · simp [fracPart, hbefore, hafter]
      · simp [intPart, hbefore, hafter]
      · rw [List.length_drop]
        omega
      · rw [intPart, if_neg hbefore, if_neg hafter]
        refine List.ne_nil_of_length_pos ?_
        rw [List.length_take]
        omega

variable {d}

theorem Split.isAsciiDigit {fraction : List Char} {zeros : Nat} (h : d.Split fraction zeros)
    {c : Char} (hc : c ∈ d.intPart ++ fraction) : IsAsciiDigit c := by
  rw [h.digits] at hc
  rcases List.mem_append.1 hc with hzero | hdigit
  · rw [List.eq_of_mem_replicate hzero]
    exact isAsciiDigit_zero
  · exact d.isAsciiDigit_of_mem_digits hdigit

/-- Characters of the mantissa. -/
theorem Split.mem_mantissa {fraction : List Char} {zeros : Nat} (h : d.Split fraction zeros)
    {c : Char} (hc : c ∈ d.intPart ++ d.fracPart) : c = '.' ∨ IsAsciiDigit c := by
  rcases List.mem_append.1 hc with hint | hfrac
  · exact .inr (h.isAsciiDigit (List.mem_append_left _ hint))
  · rcases h.point with ⟨hnone, -⟩ | hsome
    · rw [hnone] at hfrac
      cases hfrac
    · rw [hsome] at hfrac
      rcases List.mem_cons.1 hfrac with rfl | hfrac
      · exact .inl rfl
      · exact .inr (h.isAsciiDigit (List.mem_append_right _ hfrac))

theorem mem_signedIntText {n : Int} {c : Char} (h : c ∈ signedIntText n) :
    c = '-' ∨ c = '+' ∨ IsAsciiDigit c := by
  unfold signedIntText at h
  split at h <;> rcases List.mem_cons.1 h with rfl | hdigit
  · exact .inl rfl
  · exact .inr (.inr (isAsciiDigit_of_mem_natText hdigit))
  · exact .inr (.inl rfl)
  · exact .inr (.inr (isAsciiDigit_of_mem_natText hdigit))

/-- Characters of the exponent. -/
theorem mem_exponentPart {c : Char} (h : c ∈ d.exponentPart) :
    c = 'E' ∨ c = '-' ∨ c = '+' ∨ IsAsciiDigit c := by
  unfold exponentPart at h
  split at h
  · cases h
  · exact (List.mem_cons.1 h).imp_right mem_signedIntText

/-- Characters of a written decimal. -/
theorem mem_toText {c : Char} (h : c ∈ d.toText) :
    c = '-' ∨ c = '.' ∨ c = 'E' ∨ c = '+' ∨ IsAsciiDigit c := by
  obtain ⟨fraction, zeros, hsplit⟩ := d.exists_split
  unfold toText at h
  rw [List.append_assoc _ d.intPart] at h
  rcases List.mem_append.1 h with h | h
  · rcases List.mem_append.1 h with h | h
    · split at h
      · exact .inl (List.mem_singleton.1 h)
      · cases h
    · rcases hsplit.mem_mantissa h with h | h
      · exact .inr (.inl h)
      · exact .inr (.inr (.inr (.inr h)))
  · rcases mem_exponentPart h with h | h | h | h
    · exact .inr (.inr (.inl h))
    · exact .inl h
    · exact .inr (.inr (.inr (.inl h)))
    · exact .inr (.inr (.inr (.inr h)))

/-- The exponent as it is read. -/
theorem exponent?_exponentPart :
    DecimalValue.exponent? (d.exponentPart.map Char.toLower) = some (d.leftDigits - d.dotPlace) ∧
      ∀ c ∈ (d.exponentPart.map Char.toLower).head?, c = 'e' := by
  unfold exponentPart
  split
  · next heq =>
    rw [heq, Int.sub_self]
    exact ⟨rfl, fun c hc => by cases hc⟩
  · have hlower : (signedIntText (d.leftDigits - d.dotPlace)).map Char.toLower =
        signedIntText (d.leftDigits - d.dotPlace) := by
      refine map_toLower_eq_self fun c hc => ?_
      rcases mem_signedIntText hc with rfl | rfl | hdigit
      · rfl
      · rfl
      · exact hdigit.toLower
    refine ⟨?_, fun c hc => by cases hc; rfl⟩
    rw [List.map_cons, hlower, DecimalValue.exponent?, splitSign_signedIntText]
    have hne : (natText (d.leftDigits - d.dotPlace).natAbs).isEmpty = false := by
      rw [List.isEmpty_eq_false_iff]
      exact Nat.toDigits_ne_nil
    simp only [hne, digitsValue?_natText, Option.map_some, signed_natAbs]
    rfl

/-- The mantissa as it is read. -/
theorem Split.ofMantissa? {fraction : List Char} {zeros : Nat} (h : d.Split fraction zeros)
    (hadjusted : DecimalValue.adjusted d ≤ DecimalValue.maxEmax)
    (hexp : DecimalValue.minEtiny ≤ d.exp) :
    DecimalValue.ofMantissa? (decide (d.coeff < 0)) (d.intPart ++ d.fracPart)
      (d.leftDigits - d.dotPlace) = some (.finite d) := by
  have hspan : (d.intPart ++ d.fracPart).span (fun c => decide (c ≠ '.')) =
      (d.intPart, d.fracPart) := by
    refine span_append (fun c hc => ?_) fun c hc => ?_
    · exact decide_eq_true ((h.isAsciiDigit (List.mem_append_left _ hc)).ne rfl)
    · rcases h.point with ⟨hnone, -⟩ | hsome
      · rw [hnone] at hc
        cases hc
      · rw [hsome] at hc
        cases hc
        rfl
  have hdrop : d.fracPart.drop 1 = fraction := by
    rcases h.point with ⟨hnone, hempty⟩ | hsome
    · rw [hnone, hempty]
      rfl
    · rw [hsome]
      rfl
  have hvalue : digitsValue? (d.intPart ++ fraction) = some d.coeff.natAbs := by
    rw [h.digits]
    exact digitsValue?_zeros zeros d.coeff.natAbs
  have hlast : d.leftDigits - d.dotPlace - fraction.length = d.exp := by
    rw [h.length]
    omega
  unfold DecimalValue.ofMantissa?
  rw [hspan]
  simp only [hdrop]
  rw [if_neg (by simp [h.nonempty]), hvalue, Option.bind_some]
  simp only [signed_natAbs, hlast]
  exact if_pos ⟨hadjusted, hexp⟩

end Decimal

namespace DecimalValue

open Decimal

/-- A decimal is read as it was written, if its exponent is one a decimal can have. -/
theorem ofText?_toText {d : Decimal} (hadjusted : adjusted d ≤ maxEmax) (hexp : minEtiny ≤ d.exp) :
    ofText? d.toText = some (.finite d) := by
  obtain ⟨fraction, zeros, hsplit⟩ := d.exists_split
  have hspace : ∀ c ∈ d.toText, isPythonSpace c = false := by
    intro c hc
    rcases mem_toText hc with rfl | rfl | rfl | rfl | hdigit
    all_goals first | rfl | exact hdigit.not_space
  have hfilter : d.toText.filter (fun c => decide (c ≠ '_')) = d.toText := by
    refine List.filter_eq_self.2 fun c hc => decide_eq_true ?_
    rcases mem_toText hc with rfl | rfl | rfl | rfl | hdigit
    all_goals first | decide | exact hdigit.ne rfl
  have hmantissa : (d.intPart ++ d.fracPart).map Char.toLower = d.intPart ++ d.fracPart := by
    refine map_toLower_eq_self fun c hc => ?_
    rcases hsplit.mem_mantissa hc with rfl | hdigit
    · rfl
    · exact hdigit.toLower
  obtain ⟨hexponent, hhead⟩ := exponent?_exponentPart (d := d)
  generalize hlowered : d.exponentPart.map Char.toLower = exponent at hexponent hhead
  obtain ⟨c, rest, hint⟩ := List.exists_cons_of_ne_nil hsplit.nonempty
  have hdigit : IsAsciiDigit c := hsplit.isAsciiDigit (by simp [hint])
  have hsign : splitSign (d.toText.map Char.toLower) =
      (decide (d.coeff < 0), (d.intPart ++ d.fracPart) ++ exponent) := by
    have htext : d.toText.map Char.toLower =
        (if d.coeff < 0 then ['-'] else []) ++ ((d.intPart ++ d.fracPart) ++ exponent) := by
      unfold toText
      rw [List.append_assoc _ d.intPart, List.map_append, List.map_append, hmantissa, hlowered,
        List.append_assoc]
      congr 1
      split <;> rfl
    rw [htext]
    split
    · next hneg => simp [splitSign, hneg]
    · next hpos =>
      rw [hint, List.nil_append, List.cons_append, List.cons_append, splitSign_of_digit hdigit]
      simp [hpos]
  have hspan : ((d.intPart ++ d.fracPart) ++ exponent).span (fun c => decide (c ≠ 'e')) =
      (d.intPart ++ d.fracPart, exponent) := by
    refine span_append (fun c hc => ?_) fun c hc => ?_
    · rcases hsplit.mem_mantissa hc with rfl | hdigit
      · rfl
      · exact decide_eq_true (hdigit.ne rfl)
    · rw [hhead c hc]
      rfl
  unfold ofText?
  rw [pythonStrip_of_no_space hspace, hfilter, hsign]
  simp only
  -- a digit comes first, so that the text is none of the special values
  split
  · next heq =>
    rw [hint] at heq
    exact absurd (List.cons.inj heq).1 (hdigit.ne rfl)
  · next heq =>
    rw [hint] at heq
    exact absurd (List.cons.inj heq).1 (hdigit.ne rfl)
  · next heq =>
    rw [hint] at heq
    exact absurd (List.cons.inj heq).1 (hdigit.ne rfl)
  · rw [hspan]
    simp only [hexponent, Option.bind_some]
    exact hsplit.ofMantissa? hadjusted hexp

end DecimalValue

end PaymentsLab
