import PaymentsLab.Contracts.PythonText
import PaymentsLab.Foundation.BoundedRuns
import PaymentsLab.Foundation.OrderedDict

/-!
# The logger

`JsonFormatter.format` of records whose fields are nested dictionaries, lists, tuples, texts,
integers and values that are written as they are. Texts are redacted, fields with sensitive names
are replaced, and what is nested too deeply is cut off.
-/

namespace PaymentsLab

namespace Logging

open Foundation OrderedDict

abbrev Text := List Char

/-! ## Values -/

/-- `str` of an integer. -/
def intText (n : Int) : Text :=
  if n < 0 then '-' :: Nat.toDigits 10 n.natAbs else Nat.toDigits 10 n.natAbs

/-- An integer with more digits raises a `ValueError` when it is written. -/
def isWritable (n : Int) : Bool :=
  (Nat.toDigits 10 n.natAbs).length ≤ maxIntDigits

/-- The key of a dictionary; of a tuple, what `str` gives for it. -/
inductive Key
  | str (text : Text)
  | int (n : Int)
  | tuple (text : Text)
  deriving DecidableEq

namespace Key

def text : Key → Text
  | str text => text
  | int n => intText n
  | tuple text => text

/-- `str(key)`. -/
def toText? : Key → Option Text
  | int n => if isWritable n then some (intText n) else none
  | key => some key.text

end Key

theorem text_of_toText? {key : Key} {keyText : Text} (h : key.toText? = some keyText) :
    key.text = keyText := by
  cases key with
  | str text => exact Option.some.inj h
  | int n =>
    simp only [Key.toText?] at h
    split at h
    · exact Option.some.inj h
    · cases h
  | tuple text => exact Option.some.inj h

/-- A value of a record. -/
inductive Value
  | str (text : Text)
  | int (n : Int)
  /-- any other value, such as `None`, a `float` or a `datetime`, and what is written for it -/
  | other (written : Text)
  | list (items : List Value)
  | tuple (items : List Value)
  | dict (items : List (Key × Value))

/-- What `json.dumps` writes. -/
inductive Json
  | str (text : Text)
  | int (n : Int)
  | other (written : Text)
  | array (items : List Json)
  | object (members : List (Text × Json))

/-! ## Redaction -/

/-- `\d` of a character. -/
def isDecimal (c : Char) : Bool :=
  (digitValue? c).isSome

theorem isDecimal_of_isDigit {c : Char} (h : c.isDigit = true) : isDecimal c = true := by
  have hbounds : 0x30 ≤ c.toNat ∧ c.toNat < 0x30 + 10 := by
    simp only [Char.isDigit, Bool.and_eq_true, decide_eq_true_eq] at h
    exact ⟨h.1, Nat.lt_succ_of_le h.2⟩
  unfold isDecimal digitValue?
  rw [Option.isSome_map, List.find?_isSome]
  exact ⟨0x30, by decide, decide_eq_true hbounds⟩

theorem isDigit_of_isDecimal {c : Char} (hascii : c.toNat < 128) (h : isDecimal c = true) :
    c.isDigit = true := by
  unfold isDecimal digitValue? at h
  rw [Option.isSome_map, List.find?_isSome] at h
  obtain ⟨z, hmem, hbounds⟩ := h
  obtain ⟨hlow, hhigh⟩ := of_decide_eq_true hbounds
  have honly : ∀ z ∈ decimalZeros, z < 128 → z = 0x30 := by decide
  obtain rfl := honly z hmem (Nat.lt_of_le_of_lt hlow hascii)
  simp only [Char.isDigit, Bool.and_eq_true, decide_eq_true_eq]
  exact ⟨hlow, Nat.le_of_lt_succ hhigh⟩

/-- What the character database of the runtime says. -/
structure CharacterData where
  isAlnum : Char → Bool
  lower : Text → Text
  isAlnum_of_isDecimal : ∀ c, isDecimal c = true → isAlnum c = true
  isAlnum_ascii : ∀ c, c.toNat < 128 → isAlnum c = c.isAlphanum
  lower_ascii : ∀ text : Text, (∀ c ∈ text, c.toNat < 128) → lower text = text.map Char.toLower

/-- Letters and digits of ASCII, and the decimal digits of every script. -/
def CharacterData.ascii : CharacterData where
  isAlnum c := c.isAlphanum || isDecimal c
  lower text := text.map Char.toLower
  isAlnum_of_isDecimal c h := by rw [h, Bool.or_true]
  isAlnum_ascii c h := by
    cases hdecimal : isDecimal c with
    | false => rw [Bool.or_false]
    | true => rw [Char.isAlphanum, isDigit_of_isDecimal h hdecimal, Bool.or_true, Bool.or_true]
  lower_ascii _ _ := rfl

/-- `\w` of a character. -/
def CharacterData.isWord (data : CharacterData) (c : Char) : Bool :=
  data.isAlnum c || c = '_'

def redacted : Text := "[REDACTED]".toList

def truncated : Text := "[TRUNCATED]".toList

/-- `_REDACTED_FIELDS` -/
def redactedFields : List Text :=
  ["destination".toList, "pix_key".toList, "beneficiary".toList, "card_number".toList,
    "pan".toList]

/-- `_MAX_SANITIZE_DEPTH` -/
def maxSanitizeDepth : Nat := 6

section Sanitize

variable (data : CharacterData)

/-- `_CARD_LIKE_PATTERN` -/
def cardLikePattern : RunPattern Char where
  digit := isDecimal
  word := data.isWord
  least := 12
  most := 19
  word_of_digit c h := by
    unfold CharacterData.isWord
    rw [data.isAlnum_of_isDecimal c h, Bool.true_or]
  least_pos := by decide

def redactString (value : Text) : Text :=
  (cardLikePattern data).sub redacted value

example : redactString .ascii "card 4111111111111111, x4111111111111111".toList =
    "card [REDACTED], x4111111111111111".toList := by
  decide +kernel

mutual

def sanitizeMapping (sanitized : List (Text × Json)) :
    List (Key × Value) → Nat → Option (List (Text × Json))
  | [], _ => some sanitized
  | (key, value) :: values, depth =>
    key.toText?.bind fun keyText =>
      if data.lower keyText ∈ redactedFields then
        sanitizeMapping (setItem sanitized keyText (.str redacted)) values depth
      else
        (sanitizeValue value (depth + 1)).bind fun item =>
          sanitizeMapping (setItem sanitized keyText item) values depth

def sanitizeSequence : List Value → Nat → Option (List Json)
  | [], _ => some []
  | value :: values, depth =>
    (sanitizeValue value (depth + 1)).bind fun item =>
      (sanitizeSequence values depth).map (item :: ·)

def sanitizeValue (value : Value) (depth : Nat) : Option Json :=
  if maxSanitizeDepth ≤ depth then some (.str truncated)
  else
    match value with
    | .dict items => (sanitizeMapping [] items depth).map .object
    | .list items => (sanitizeSequence items depth).map .array
    | .tuple items => (sanitizeSequence items depth).map .array
    | .str text => some (.str (redactString data text))
    | .int n => some (.int n)
    | .other written => some (.other written)

end

end Sanitize

/-! ## Records -/

mutual

/-- Every integer can be written. -/
def Json.writable : Json → Bool
  | .str _ => true
  | .int n => isWritable n
  | .other _ => true
  | .array items => writableItems items
  | .object members => writableMembers members

def writableItems : List Json → Bool
  | [] => true
  | item :: items => item.writable && writableItems items

def writableMembers : List (Text × Json) → Bool
  | [] => true
  | (_, item) :: members => item.writable && writableMembers members

end

/-- `json.dumps`: the document it writes. -/
def dumps (json : Json) : Option Json :=
  if json.writable then some json else none

theorem eq_of_dumps {json written : Json} (h : dumps json = some written) : json = written := by
  unfold dumps at h
  split_ifs at h
  exact Option.some.inj h

structure LogRecord where
  levelname : Text
  name : Text
  /-- `getMessage()` -/
  message : Text
  /-- `formatException(exc_info)` -/
  exception : Option Text
  extraFields : Option (List (Key × Value))

/-- `base`, with a message. -/
def LogRecord.base (record : LogRecord) (timestamp : Text) (context : List (Key × Value))
    (message : Text) : List (Key × Value) :=
  let base := [(.str "timestamp".toList, .str timestamp),
    (.str "level".toList, .str record.levelname), (.str "logger".toList, .str record.name),
    (.str "message".toList, .str message)]
  let base := match record.exception with
    | some exception => setItem base (.str "exception".toList) (.str exception)
    | none => base
  let base := update base context
  match record.extraFields with
  | some extraFields => update base extraFields
  | none => base

/-- `JsonFormatter.format` at a time and in a correlation context; `none` is a `ValueError`. -/
def JsonFormatter.format (data : CharacterData) (timestamp : Text) (context : List (Key × Value))
    (record : LogRecord) : Option Json :=
  (sanitizeValue data (.dict (record.base timestamp context (redactString data record.message)))
    0).bind dumps

end Logging

end PaymentsLab
