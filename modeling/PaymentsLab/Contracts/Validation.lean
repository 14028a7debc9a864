import Mathlib.Data.List.DropRight
import PaymentsLab.Contracts.PythonText

/-!
# Validation of headers and currencies

`shared/utils/validation.py`. An `Identifier` is a text that `require_header` accepts. The `upper`
of `ensureSupportedCurrency` is `str.upper`.
-/

namespace PaymentsLab

/-- `_MAX_HEADER_LENGTH`. -/
def maxHeaderLength : Nat := 128

/-- `_CURRENCY_CODE_LENGTH`. -/
def currencyCodeLength : Nat := 3

/-- What `headers.get` gives. -/
inductive HeaderValue
  | missing
  /-- a value that is not a `str` -/
  | other
  | text (s : String)

/-- `str.strip` of a `str`. -/
def stripText (s : String) : String :=
  .ofList (pythonStrip s.toList)

/-- `_normalize_text`; an error is the text of the `ValueError`. -/
def normalizeText (value : HeaderValue) (fieldName : String) : Except String String :=
  match value with
  | .text s =>
    if stripText s = "" then .error ("Missing required " ++ fieldName) else .ok (stripText s)
  | _ => .error ("Missing required " ++ fieldName)

/-- `require_header`. -/
def requireHeader (headers : String → HeaderValue) (key : String) : Except String String := do
  let value ← normalizeText (headers key) ("header: " ++ key)
  if maxHeaderLength < value.length then throw ("Header too long: " ++ key)
  return value

/-- `ensure_supported_currency`. -/
def ensureSupportedCurrency (upper : String → String) (currency : String)
    (supported : List String) : Except String String := do
  let normalized := upper (← normalizeText (.text currency) "currency")
  if normalized.length ≠ currencyCodeLength then
    throw ("Invalid currency code length: " ++ normalized)
  let codes := (supported.filter fun item => stripText item ≠ "").map fun item =>
    upper (stripText item)
  if normalized ∉ codes then throw ("Unsupported currency: " ++ normalized)
  return normalized

/-- A trimmed, non-blank text of at most 128 characters. -/
structure Identifier where
  text : String
  trimmed : stripText text = text
  nonblank : text ≠ ""
  length_le : text.length ≤ maxHeaderLength

theorem Identifier.ext_text {a b : Identifier} (h : a.text = b.text) : a = b := by
  obtain ⟨_, _, _, _⟩ := a
  cases h
  rfl

/-- Stripping a text again changes nothing. -/
theorem pythonStrip_pythonStrip (s : List Char) : pythonStrip (pythonStrip s) = pythonStrip s := by
  have hstrip (s : List Char) :
      pythonStrip s = (s.dropWhile isPythonSpace).rdropWhile isPythonSpace := rfl
  have hhead : ((s.dropWhile isPythonSpace).rdropWhile isPythonSpace).dropWhile isPythonSpace =
      (s.dropWhile isPythonSpace).rdropWhile isPythonSpace := by
    obtain ⟨rest, hrest⟩ := List.rdropWhile_prefix isPythonSpace (s.dropWhile isPythonSpace)
    have hidem := List.dropWhile_idempotent isPythonSpace s
    rw [List.dropWhile_eq_self_iff] at hidem ⊢
    intro hpos
    have hlength := congrArg List.length hrest
    rw [List.length_append] at hlength
    have hfirst := congrArg (·[0]?) hrest
    simp only [List.getElem?_append_left hpos] at hfirst
    rw [List.getElem?_eq_getElem hpos, List.getElem?_eq_getElem (by omega)] at hfirst
    exact Option.some.inj hfirst ▸ hidem (by omega)
  rw [hstrip, hstrip, hhead, List.rdropWhile_idempotent]

theorem stripText_stripText (s : String) : stripText (stripText s) = stripText s := by
  unfold stripText
  rw [String.toList_ofList, pythonStrip_pythonStrip]

theorem normalizeText_eq_ok {value : HeaderValue} {fieldName s : String} :
    normalizeText value fieldName = .ok s ↔
      ∃ raw, value = .text raw ∧ stripText raw = s ∧ s ≠ "" := by
  unfold normalizeText
  cases value with
  | missing | other => simp
  | text raw =>
    by_cases hblank : stripText raw = ""
    · simp [hblank]
    · simp only [if_neg hblank, Except.ok.injEq, HeaderValue.text.injEq]
      constructor
      · rintro rfl
        exact ⟨raw, rfl, rfl, hblank⟩
      · rintro ⟨_, rfl, hs, -⟩
        exact hs

theorem requireHeader_eq_ok {headers : String → HeaderValue} {key s : String} :
    requireHeader headers key = .ok s ↔
      ∃ raw, headers key = .text raw ∧ stripText raw = s ∧ s ≠ "" ∧ s.length ≤ maxHeaderLength := by
  unfold requireHeader
  cases hvalue : normalizeText (headers key) ("header: " ++ key) with
  | error e =>
    constructor
    · intro h
      cases h
    · rintro ⟨raw, hraw, hs, hne, -⟩
      cases hvalue.symm.trans (normalizeText_eq_ok.2 ⟨raw, hraw, hs, hne⟩)
  | ok value =>
    obtain ⟨raw, hraw, hvalue, hne⟩ := normalizeText_eq_ok.1 hvalue
    have hbind : (do
        let value ← Except.ok value
        if maxHeaderLength < value.length then throw ("Header too long: " ++ key)
        return value : Except String String) =
        if maxHeaderLength < value.length then .error ("Header too long: " ++ key)
        else .ok value := by
      by_cases hlong : maxHeaderLength < value.length
      · rw [if_pos hlong]
        simp only [bind, Except.bind, if_pos hlong]
        rfl
      · rw [if_neg hlong]
        simp only [bind, Except.bind, if_neg hlong]
        rfl
    rw [hbind]
    constructor
    · intro h
      split at h
      · cases h
      · cases h
        exact ⟨raw, hraw, hvalue, hne, by omega⟩
    · rintro ⟨raw', hraw', rfl, -, hle⟩
      cases hraw.symm.trans hraw'
      rw [← hvalue, if_neg (Nat.not_lt.2 hle)]

end PaymentsLab
