import Mathlib.Algebra.Ring.Nat
import PaymentsLab.Contracts.Persistence
import PaymentsLab.Logging.Logger

/-!
# Identifiers in logs

The UUIDs and trace ids that connect the records of a payment, through the logger. A UUID is five
words to the card pattern, of which only the last one is long enough for a match, and a trace id is
one word that is too long. So an identifier is written as it is iff it is no UUID whose last twelve
digits are decimal (`identifier_kept_iff`).
-/

namespace PaymentsLab

namespace Logging

open Foundation OrderedDict RunPattern

/-! ## Identifiers -/

/-- `format(n, "0{width}x")` of a number with at most so many digits. -/
def hexText : (width : Nat) → (n : Nat) → Text
  | 0, _ => []
  | width + 1, n => hexText width (n / 16) ++ [Nat.digitChar (n % 16)]

/-- `str` of a UUID. -/
def uuidText (u : UUID) : Text :=
  let hex := hexText 32 u
  hex.take 8 ++ '-' :: ((hex.drop 8).take 4 ++ '-' :: ((hex.drop 12).take 4 ++
    '-' :: ((hex.drop 16).take 4 ++ '-' :: hex.drop 20)))

example : uuidText 0x123e4567e89b12d3a456426614174000 =
    "123e4567-e89b-12d3-a456-426614174000".toList := by
  decide

/-- A lower-case hexadecimal digit. -/
def isHex (c : Char) : Bool :=
  c.isDigit || ('a' ≤ c && c ≤ 'f')

/-- What `current_trace_id` gives in a span. -/
structure TraceId where
  text : Text
  length_eq : text.length = 32
  hex : text.all isHex = true

/-- An identifier of a log record. -/
inductive Correlation
  | paymentId (u : UUID)
  | eventId (u : UUID)
  | traceId (t : TraceId)

namespace Correlation

/-- The name of its field. -/
def name : Correlation → Text
  | paymentId _ => "payment_id".toList
  | eventId _ => "event_id".toList
  | traceId _ => "trace_id".toList

def text : Correlation → Text
  | paymentId u => uuidText u
  | eventId u => uuidText u
  | traceId t => t.text

/-- The last twelve digits of a UUID are decimal. -/
def IsCardLike : Correlation → Prop
  | paymentId u => ∀ i < 12, u / 16 ^ i % 16 < 10
  | eventId u => ∀ i < 12, u / 16 ^ i % 16 < 10
  | traceId _ => False

instance : (id : Correlation) → Decidable id.IsCardLike
  | paymentId u => inferInstanceAs (Decidable (∀ i < 12, u / 16 ^ i % 16 < 10))
  | eventId u => inferInstanceAs (Decidable (∀ i < 12, u / 16 ^ i % 16 < 10))
  | traceId _ => inferInstanceAs (Decidable False)

end Correlation

/-! ## Places in a document -/

/-- A step into a dictionary, or into a list. -/
inductive Step
  | name (text : Text)
  | index (n : Nat)
  deriving DecidableEq

/-- The value under a name. Of several keys with its text the last one counts. -/
def field? : List (Key × Value) → Text → Option Value
  | [], _ => none
  | (key, value) :: items, name =>
    (field? items name).or (if key.text = name then some value else none)

/-- The value at a place. -/
def Value.at? : Value → List Step → Option Value
  | value, [] => some value
  | .dict items, .name name :: path => (field? items name).bind fun value => value.at? path
  | .list items, .index n :: path => items[n]?.bind fun value => value.at? path
  | .tuple items, .index n :: path => items[n]?.bind fun value => value.at? path
  | _, _ :: _ => none

/-- What is written at a place. -/
def Json.at? : Json → List Step → Option Json
  | json, [] => some json
  | .object members, .name name :: path => (members.lookup name).bind fun item => item.at? path
  | .array items, .index n :: path => items[n]?.bind fun item => item.at? path
  | _, _ :: _ => none

variable {data : CharacterData}

/-! ## The last group of a UUID -/

theorem isHex_digitChar {d : Nat} (h : d < 16) : isHex (Nat.digitChar d) = true := by
  have hall : ∀ d < 16, isHex (Nat.digitChar d) = true := by decide
  exact hall d h

theorem isDecimal_digitChar {d : Nat} (h : d < 16) :
    isDecimal (Nat.digitChar d) = true ↔ d < 10 := by
  have hall : ∀ d < 16, isDecimal (Nat.digitChar d) = true ↔ d < 10 := by decide
  exact hall d h

theorem toNat_lt_of_isHex {c : Char} (h : isHex c = true) : c.toNat < 128 := by
  simp only [isHex, Bool.or_eq_true, Bool.and_eq_true, decide_eq_true_eq, Char.isDigit] at h
  rcases h with ⟨-, hdigit⟩ | ⟨-, hletter⟩
  · have hle : c.toNat ≤ '9'.toNat := hdigit
    exact Nat.lt_of_le_of_lt hle (by decide)
  · have hle : c.toNat ≤ 'f'.toNat := hletter
    exact Nat.lt_of_le_of_lt hle (by decide)

theorem isWord_of_isHex {c : Char} (h : isHex c = true) : data.isWord c = true := by
  have halpha : c.isAlphanum = true := by
    simp only [isHex, Bool.or_eq_true, Bool.and_eq_true, decide_eq_true_eq] at h
    rcases h with hdigit | ⟨hlow, hhigh⟩
    · exact Bool.or_eq_true_iff.2 (.inr hdigit)
    · have hlower : c.isLower = true := Bool.and_eq_true_iff.2
        ⟨decide_eq_true hlow, decide_eq_true (UInt32.le_trans hhigh (by decide : 'f' ≤ 'z'))⟩
      exact Bool.or_eq_true_iff.2 (.inl (Bool.or_eq_true_iff.2 (.inr hlower)))
  unfold CharacterData.isWord
  rw [data.isAlnum_ascii c (toNat_lt_of_isHex h), halpha, Bool.true_or]

theorem length_hexText (width n : Nat) : (hexText width n).length = width := by
  induction width generalizing n with
  | zero => rfl
  | succ width ih => rw [hexText, List.length_append, ih, List.length_singleton]

theorem isHex_of_mem_hexText {width n : Nat} {c : Char} (h : c ∈ hexText width n) :
    isHex c = true := by
  induction width generalizing n with
  | zero => exact absurd h List.not_mem_nil
  | succ width ih =>
    rcases List.mem_append.1 h with h | h
    · exact ih h
    · rw [List.mem_singleton.1 h]
      exact isHex_digitChar (Nat.mod_lt n (by decide))

/-- The last digits of a number, as texts of their own. -/
theorem drop_hexText (k width n : Nat) :
    (hexText (k + width) n).drop k = hexText width n := by
  induction width generalizing n with
  | zero =>
    rw [List.drop_eq_nil_iff.2 (by rw [length_hexText, Nat.add_zero])]
    rfl
  | succ width ih =>
    rw [← Nat.add_assoc, hexText, hexText,
      List.drop_append_of_le_length (by rw [length_hexText]; exact Nat.le_add_right k width), ih]

theorem digitChar_inj {d d' : Nat} (h : d < 16) (h' : d' < 16)
    (heq : Nat.digitChar d = Nat.digitChar d') : d = d' := by
  have hall : ∀ d < 16, ∀ d' < 16, Nat.digitChar d = Nat.digitChar d' → d = d' := by decide
  exact hall d h d' h' heq

/-- The digits tell the number. -/
theorem hexText_inj {width n n' : Nat} (h : hexText width n = hexText width n') :
    n % 16 ^ width = n' % 16 ^ width := by
  induction width generalizing n n' with
  | zero => rw [Nat.pow_zero, Nat.mod_one, Nat.mod_one]
  | succ width ih =>
    rw [hexText, hexText] at h
    obtain ⟨hrest, hlast⟩ := List.append_inj' h rfl
    have hdigit := digitChar_inj (Nat.mod_lt n (by decide)) (Nat.mod_lt n' (by decide))
      (List.cons.inj hlast).1
    rw [Nat.pow_succ', Nat.mod_mul, Nat.mod_mul, ih hrest, hdigit]

/-- Without its hyphens the text of a UUID is that of its digits. -/
theorem filter_uuidText (u : UUID) :
    (uuidText u).filter (fun c => decide (c ≠ '-')) = hexText 32 u := by
  have hkeep (s : Text) (hs : ∀ c ∈ s, c ∈ hexText 32 u) :
      s.filter (fun c => decide (c ≠ '-')) = s := by
    refine List.filter_eq_self.2 fun c hc => decide_eq_true ?_
    rintro rfl
    cases isHex_of_mem_hexText (hs _ hc)
  have hhyphen (s : Text) : ('-' :: s).filter (fun c => decide (c ≠ '-')) =
      s.filter fun c => decide (c ≠ '-') := rfl
  have hpiece (k : Nat) : ∀ c ∈ ((hexText 32 u).drop k).take 4, c ∈ hexText 32 u :=
    fun c hc => List.mem_of_mem_drop (List.mem_of_mem_take hc)
  have hnext (k : Nat) : ((hexText 32 u).drop k).take 4 ++ (hexText 32 u).drop (k + 4) =
      (hexText 32 u).drop k := by
    rw [← List.drop_drop, List.take_append_drop]
  unfold uuidText
  dsimp only
  rw [List.filter_append, hhyphen, List.filter_append, hhyphen, List.filter_append, hhyphen,
    List.filter_append, hhyphen, hkeep _ fun c hc => List.mem_of_mem_take hc, hkeep _ (hpiece 8),
    hkeep _ (hpiece 12), hkeep _ (hpiece 16), hkeep _ fun c hc => List.mem_of_mem_drop hc, hnext 16,
    hnext 12, hnext 8, List.take_append_drop]

/-- Different UUIDs have different texts. -/
theorem uuidText_inj {u v : UUID} (hu : u < 2 ^ 128) (hv : v < 2 ^ 128)
    (h : uuidText u = uuidText v) : u = v := by
  have hhex : hexText 32 u = hexText 32 v := by rw [← filter_uuidText, h, filter_uuidText]
  have hwidth : 16 ^ 32 = 2 ^ 128 := by decide
  have hdigits := hexText_inj hhex
  rwa [hwidth, Nat.mod_eq_of_lt hu, Nat.mod_eq_of_lt hv] at hdigits

theorem isDecimal_hexText_iff {width n : Nat} :
    (∀ c ∈ hexText width n, isDecimal c = true) ↔ ∀ i < width, n / 16 ^ i % 16 < 10 := by
  induction width generalizing n with
  | zero => simp [hexText]
  | succ width ih =>
    have hlast := isDecimal_digitChar (Nat.mod_lt n (by decide : 0 < 16))
    have hshift (i : Nat) : n / 16 / 16 ^ i = n / 16 ^ (i + 1) := by
      rw [Nat.div_div_eq_div_mul, Nat.pow_succ']
    simp only [hexText, List.forall_mem_append, List.forall_mem_singleton, ih, hlast, hshift]
    constructor
    · rintro ⟨hrest, hzero⟩ i hi
      cases i with
      | zero => rwa [Nat.pow_zero, Nat.div_one]
      | succ i => exact hrest i (Nat.lt_of_succ_lt_succ hi)
    · intro h
      refine ⟨fun i hi => h (i + 1) (Nat.succ_lt_succ hi), ?_⟩
      have hzero := h 0 (Nat.succ_pos width)
      rwa [Nat.pow_zero, Nat.div_one] at hzero

/-! ## Identifiers through the card pattern -/

theorem subWord_of_short {w : Text} (h : w.length < 12) :
    (cardLikePattern data).subWord redacted w = w :=
  if_neg fun hrun => absurd hrun.2.1 (Nat.not_le.2 h)

theorem subWord_of_long {w : Text} (h : 19 < w.length) :
    (cardLikePattern data).subWord redacted w = w :=
  if_neg fun hrun => absurd hrun.2.2 (Nat.not_le.2 h)

/-- A word of hexadecimal digits and a hyphen, before the rest of a text. -/
theorem redactString_append_hyphen {w : Text} (hw : ∀ c ∈ w, isHex c = true) (rest : Text) :
    redactString data (w ++ '-' :: rest) =
      (cardLikePattern data).subWord redacted w ++ '-' :: redactString data rest := by
  have hhyphen : data.isWord '-' = false := by
    unfold CharacterData.isWord
    rw [data.isAlnum_ascii '-' (by decide)]
    rfl
  exact sub_append_cons (fun c hc => isWord_of_isHex (hw c hc)) hhyphen

theorem redactString_of_hex {w : Text} (hw : ∀ c ∈ w, isHex c = true) :
    redactString data w = (cardLikePattern data).subWord redacted w :=
  sub_of_word fun c hc => isWord_of_isHex (hw c hc)

/-- A UUID is written as it is, up to its last group. -/
theorem redactString_uuidText_iff (u : UUID) :
    redactString data (uuidText u) = uuidText u ↔ ¬ ∀ i < 12, u / 16 ^ i % 16 < 10 := by
  have hgroup (k : Nat) : ∀ c ∈ ((hexText 32 u).drop k).take 4, isHex c = true := fun c hc =>
    isHex_of_mem_hexText (List.mem_of_mem_drop (List.mem_of_mem_take hc))
  have hshort (k : Nat) : (cardLikePattern data).subWord redacted (((hexText 32 u).drop k).take 4) =
      ((hexText 32 u).drop k).take 4 :=
    subWord_of_short (Nat.lt_of_le_of_lt (List.length_take_le 4 _) (by decide))
  have hfirst : (cardLikePattern data).subWord redacted ((hexText 32 u).take 8) =
      (hexText 32 u).take 8 :=
    subWord_of_short (Nat.lt_of_le_of_lt (List.length_take_le 8 _) (by decide))
  have hlast : (hexText 32 u).drop 20 = hexText 12 u := drop_hexText 20 12 u
  unfold uuidText
  dsimp only
  rw [redactString_append_hyphen fun c hc => isHex_of_mem_hexText (List.mem_of_mem_take hc),
    redactString_append_hyphen (hgroup 8), redactString_append_hyphen (hgroup 12),
    redactString_append_hyphen (hgroup 16), hfirst, hshort, hshort, hshort, hlast,
    redactString_of_hex fun c hc => isHex_of_mem_hexText hc]
  simp only [List.append_cancel_left_eq, List.cons.injEq, true_and]
  rw [← isDecimal_hexText_iff]
  unfold subWord
  split_ifs with hrun
  · refine iff_of_false (fun h => ?_) (not_not.2 hrun.1)
    have hlength := congrArg List.length h
    rw [length_hexText] at hlength
    exact absurd hlength (by decide)
  · refine iff_of_true rfl fun hdigits => hrun ⟨hdigits, ?_⟩
    rw [length_hexText]
    exact ⟨le_rfl, (by decide : 12 ≤ 19)⟩

theorem redactString_text_iff (id : Correlation) :
    redactString data id.text = id.text ↔ ¬ id.IsCardLike := by
  cases id with
  | paymentId u => exact redactString_uuidText_iff u
  | eventId u => exact redactString_uuidText_iff u
  | traceId t =>
    refine iff_of_true ?_ not_false
    have hhex : ∀ c ∈ t.text, isHex c = true := List.all_eq_true.1 t.hex
    exact (redactString_of_hex hhex).trans (subWord_of_long (by rw [t.length_eq]; decide))

/-! ## What is written at a place -/

theorem lookup_sanitizeMapping_of_none {sanitized members : List (Text × Json)} {name : Text}
    {values : List (Key × Value)} {depth : Nat} (hnone : field? values name = none)
    (h : sanitizeMapping data sanitized values depth = some members) :
    members.lookup name = sanitized.lookup name := by
  induction values generalizing sanitized with
  | nil =>
    rw [sanitizeMapping] at h
    cases h
    rfl
  | cons item values ih =>
    obtain ⟨key, value⟩ := item
    rw [field?, Option.or_eq_none_iff, ite_eq_right_iff] at hnone
    have hother : name ≠ key.text := fun heq => nomatch hnone.2 heq.symm
    rw [sanitizeMapping] at h
    obtain ⟨keyText, hkey, h⟩ := Option.bind_eq_some_iff.1 h
    obtain rfl := text_of_toText? hkey
    split_ifs at h
    · rw [ih hnone.1 h, lookup_setItem, if_neg hother]
    · obtain ⟨item, -, h⟩ := Option.bind_eq_some_iff.1 h
      rw [ih hnone.1 h, lookup_setItem, if_neg hother]

/-- What is written for the value under a name. -/
structure Writes (data : CharacterData) (name : Text) (value : Value) (depth : Nat) (item : Json) :
    Prop where
  sensitive : data.lower name ∈ redactedFields → item = .str redacted
  plain : data.lower name ∉ redactedFields → sanitizeValue data value depth = some item

theorem lookup_sanitizeMapping {sanitized members : List (Text × Json)} {name : Text}
    {values : List (Key × Value)} {value : Value} {depth : Nat}
    (hvalue : field? values name = some value)
    (h : sanitizeMapping data sanitized values depth = some members) :
    ∃ item, members.lookup name = some item ∧ Writes data name value (depth + 1) item := by
  induction values generalizing sanitized with
  | nil => cases hvalue
  | cons item values ih =>
    obtain ⟨key, other⟩ := item
    rw [sanitizeMapping] at h
    obtain ⟨keyText, hkey, h⟩ := Option.bind_eq_some_iff.1 h
    obtain rfl := text_of_toText? hkey
    rw [field?, Option.or_eq_some_iff] at hvalue
    rcases hvalue with hvalue | ⟨hnone, hvalue⟩
    · split_ifs at h
      · exact ih hvalue h
      · obtain ⟨item, -, h⟩ := Option.bind_eq_some_iff.1 h
        exact ih hvalue h
    · split_ifs at hvalue with hname
      cases hvalue
      subst hname
      split_ifs at h with hfield
      · refine ⟨_, ?_, fun _ => rfl, fun hplain => absurd hfield hplain⟩
        rw [lookup_sanitizeMapping_of_none hnone h, lookup_setItem, if_pos rfl]
      · obtain ⟨item, hitem, h⟩ := Option.bind_eq_some_iff.1 h
        refine ⟨item, ?_, fun hsensitive => absurd hsensitive hfield, fun _ => hitem⟩
        rw [lookup_sanitizeMapping_of_none hnone h, lookup_setItem, if_pos rfl]

theorem getElem?_sanitizeSequence {values : List Value} {items : List Json} {value : Value}
    {n depth : Nat} (hvalue : values[n]? = some value)
    (h : sanitizeSequence data values depth = some items) :
    ∃ item, items[n]? = some item ∧ sanitizeValue data value (depth + 1) = some item := by
  induction values generalizing items n with
  | nil => cases hvalue
  | cons first values ih =>
    rw [sanitizeSequence] at h
    obtain ⟨item, hitem, h⟩ := Option.bind_eq_some_iff.1 h
    obtain ⟨items, hitems, rfl⟩ := Option.map_eq_some_iff.1 h
    cases n with
    | zero =>
      cases hvalue
      exact ⟨item, rfl, hitem⟩
    | succ n =>
      obtain ⟨item, hitem, hwritten⟩ := ih hvalue hitems
      exact ⟨item, hitem, hwritten⟩

/-- No step goes into a sensitive field. -/
def Unredacted (data : CharacterData) (path : List Step) : Prop :=
  ∀ step ∈ path, ∀ name, step = .name name → data.lower name ∉ redactedFields

/-- What a step leads to in the value, and in what is written of it. -/
theorem step_sanitizeValue {step : Step} {path : List Step} {value part : Value} {depth : Nat}
    {json : Json} (hdepth : depth < maxSanitizeDepth) (hpart : value.at? (step :: path) = some part)
    (h : sanitizeValue data value depth = some json) :
    ∃ value' item, value'.at? path = some part ∧ json.at? (step :: path) = item.at? path ∧
      ((∃ name, step = .name name ∧ Writes data name value' (depth + 1) item) ∨
        (∃ n, step = .index n) ∧ sanitizeValue data value' (depth + 1) = some item) := by
  rw [sanitizeValue.eq_def, if_neg (Nat.not_le.2 hdepth)] at h
  cases value with
  | str text => cases step <;> cases hpart
  | int n => cases step <;> cases hpart
  | other written => cases step <;> cases hpart
  | list values =>
    cases step with
    | name name => cases hpart
    | index n =>
      obtain ⟨items, hitems, rfl⟩ := Option.map_eq_some_iff.1 h
      obtain ⟨value', hvalue, hpart⟩ := Option.bind_eq_some_iff.1 hpart
      obtain ⟨item, hitem, hwritten⟩ := getElem?_sanitizeSequence hvalue hitems
      refine ⟨value', item, hpart, ?_, .inr ⟨⟨n, rfl⟩, hwritten⟩⟩
      rw [Json.at?, hitem, Option.bind_some]
  | tuple values =>
    cases step with
    | name name => cases hpart
    | index n =>
      obtain ⟨items, hitems, rfl⟩ := Option.map_eq_some_iff.1 h
      obtain ⟨value', hvalue, hpart⟩ := Option.bind_eq_some_iff.1 hpart
      obtain ⟨item, hitem, hwritten⟩ := getElem?_sanitizeSequence hvalue hitems
      refine ⟨value', item, hpart, ?_, .inr ⟨⟨n, rfl⟩, hwritten⟩⟩
      rw [Json.at?, hitem, Option.bind_some]
  | dict values =>
    cases step with
    | index n => cases hpart
    | name name =>
      obtain ⟨members, hmembers, rfl⟩ := Option.map_eq_some_iff.1 h
      obtain ⟨value', hvalue, hpart⟩ := Option.bind_eq_some_iff.1 hpart
      obtain ⟨item, hitem, hwritten⟩ := lookup_sanitizeMapping hvalue hmembers
      refine ⟨value', item, hpart, ?_, .inl ⟨name, rfl, hwritten⟩⟩
      rw [Json.at?, hitem, Option.bind_some]

/-- What is written at a place that is in no sensitive field. -/
theorem at?_sanitizeValue {path : List Step} {value part : Value} {depth : Nat} {json : Json}
    (hpath : Unredacted data path) (hdepth : depth + path.length ≤ maxSanitizeDepth)
    (hpart : value.at? path = some part) (h : sanitizeValue data value depth = some json) :
    json.at? path = sanitizeValue data part (depth + path.length) := by
  induction path generalizing value depth json with
  | nil =>
    rw [Value.at?] at hpart
    cases hpart
    rw [List.length_nil, Nat.add_zero, h, Json.at?]
  | cons step path ih =>
    rw [List.length_cons] at hdepth ⊢
    obtain ⟨value', item, hpart, hat, hwritten⟩ := step_sanitizeValue (by omega) hpart h
    have hitem : sanitizeValue data value' (depth + 1) = some item := by
      rcases hwritten with ⟨name, rfl, hwritten⟩ | ⟨-, hwritten⟩
      · exact hwritten.plain (hpath _ List.mem_cons_self name rfl)
      · exact hwritten
    have hrest : Unredacted data path := fun step hstep => hpath step (List.mem_cons_of_mem _ hstep)
    rw [hat, ih hrest (by omega) hpart hitem]
    exact congrArg _ (by omega)

/-- Of what is in a sensitive field nothing is written. -/
theorem at?_sanitizeValue_redacted {path : List Step} {value part : Value} {depth : Nat}
    {json written : Json} (hpath : ¬ Unredacted data path)
    (hdepth : depth + path.length ≤ maxSanitizeDepth) (hpart : value.at? path = some part)
    (h : sanitizeValue data value depth = some json) (hat : json.at? path = some written) :
    written = .str redacted := by
  induction path generalizing value depth json with
  | nil => exact absurd (fun step hstep => absurd hstep List.not_mem_nil) hpath
  | cons step path ih =>
    rw [List.length_cons] at hdepth
    obtain ⟨value', item, hpart, hsame, hwritten⟩ := step_sanitizeValue (by omega) hpart h
    rw [hsame] at hat
    have hsanitized (hitem : sanitizeValue data value' (depth + 1) = some item)
        (hstep : ∀ name, step = .name name → data.lower name ∉ redactedFields) :
        written = .str redacted := by
      refine ih (fun hrest => hpath fun step' hmem => ?_) (by omega) hpart hitem hat
      rcases List.mem_cons.1 hmem with rfl | hmem
      · exact hstep
      · exact hrest step' hmem
    rcases hwritten with ⟨name, rfl, hwritten⟩ | ⟨⟨n, rfl⟩, hitem⟩
    · by_cases hfield : data.lower name ∈ redactedFields
      · cases hwritten.sensitive hfield
        cases path with
        | nil => exact (Option.some.inj hat).symm
        | cons next path => cases next <;> cases hat
      · refine hsanitized (hwritten.plain hfield) fun name' heq => ?_
        cases heq
        exact hfield
    · exact hsanitized hitem fun name heq => nomatch heq

/-! ## Identifiers in records -/

/-- The identifier stands in the value, in a field of its name. -/
def Value.Carries (value : Value) (path : List Step) (id : Correlation) : Prop :=
  value.at? (path ++ [.name id.name]) = some (.str id.text)

instance (value : Value) (path : List Step) (id : Correlation) :
    Decidable (value.Carries path id) :=
  match h : value.at? (path ++ [.name id.name]) with
  | some (.str text) =>
    decidable_of_iff (text = id.text) (by rw [Value.Carries, h, Option.some.injEq, Value.str.injEq])
  | some (.int _) | some (.other _) | some (.list _) | some (.tuple _) | some (.dict _) | none =>
    .isFalse (by rw [Value.Carries, h]; exact nofun)

/-- The identifier is written as it is. -/
def Json.Keeps (json : Json) (path : List Step) (id : Correlation) : Prop :=
  json.at? (path ++ [.name id.name]) = some (.str id.text)

theorem length_uuidText (u : UUID) : (uuidText u).length = 36 := by
  unfold uuidText
  simp only [List.length_append, List.length_cons, List.length_take, List.length_drop,
    length_hexText]
  decide

theorem redacted_ne_text (id : Correlation) : redacted ≠ id.text := by
  have hredacted : redacted.length = 10 := by decide
  intro h
  rw [h] at hredacted
  cases id with
  | paymentId u | eventId u =>
    rw [Correlation.text, length_uuidText] at hredacted
    cases hredacted
  | traceId t =>
    rw [Correlation.text, t.length_eq] at hredacted
    cases hredacted

theorem lower_name_not_mem (id : Correlation) : data.lower id.name ∉ redactedFields := by
  have hlower (name : Text) (hascii : name.all (fun c => decide (c.toNat < 128)) = true)
      (hnot : name.map Char.toLower ∉ redactedFields) : data.lower name ∉ redactedFields := by
    rwa [data.lower_ascii _ fun c hc => of_decide_eq_true (List.all_eq_true.1 hascii c hc)]
  cases id with
  | paymentId => exact hlower "payment_id".toList (by decide) (by decide)
  | eventId => exact hlower "event_id".toList (by decide) (by decide)
  | traceId => exact hlower "trace_id".toList (by decide) (by decide)

/-- An identifier is written as it is iff no field around it is a sensitive one and it does not look
like a card number. -/
theorem keeps_sanitizeValue_iff {value : Value} {json : Json} {path : List Step} {id : Correlation}
    (hdepth : path.length + 1 < maxSanitizeDepth) (hcarries : value.Carries path id)
    (h : sanitizeValue data value 0 = some json) :
    json.Keeps path id ↔ Unredacted data path ∧ ¬ id.IsCardLike := by
  have hlength : 0 + (path ++ [Step.name id.name]).length = path.length + 1 := by
    rw [List.length_append, List.length_singleton, Nat.zero_add]
  have hfield : Unredacted data (path ++ [.name id.name]) ↔ Unredacted data path := by
    unfold Unredacted
    rw [List.forall_mem_append]
    refine and_iff_left fun step hstep name heq => ?_
    cases List.mem_singleton.1 hstep
    cases heq
    exact lower_name_not_mem id
  unfold Json.Keeps
  by_cases hpath : Unredacted data path
  · have htext : redactString data id.text = id.text ↔ ¬ id.IsCardLike := redactString_text_iff id
    rw [at?_sanitizeValue (hfield.2 hpath) (by omega) hcarries h, hlength, sanitizeValue.eq_def,
      if_neg (Nat.not_le.2 hdepth), and_iff_right hpath, ← htext]
    simp only [Option.some.injEq, Json.str.injEq]
  · refine iff_of_false (fun hat => ?_) fun hboth => hpath hboth.1
    have hredacted := at?_sanitizeValue_redacted (mt hfield.1 hpath) (by omega) hcarries h hat
    exact redacted_ne_text id (Json.str.inj hredacted).symm

theorem keeps_format_iff {timestamp : Text} {context : List (Key × Value)} {record : LogRecord}
    {json : Json} {path : List Step} {id : Correlation}
    (hdepth : path.length + 1 < maxSanitizeDepth)
    (hcarries : (Value.dict (record.base timestamp context
      (redactString data record.message))).Carries path id)
    (h : JsonFormatter.format data timestamp context record = some json) :
    json.Keeps path id ↔ Unredacted data path ∧ ¬ id.IsCardLike := by
  obtain ⟨sanitized, hsanitized, hdumps⟩ := Option.bind_eq_some_iff.1 h
  obtain rfl := eq_of_dumps hdumps
  exact keeps_sanitizeValue_iff hdepth hcarries hsanitized

/-- Through the sanitizer and through the formatter, an identifier at a place that is not too deep
is written as it is iff no field around it is a sensitive one and it is no UUID whose last twelve
digits are decimal. -/
theorem identifier_kept_iff (data : CharacterData) (path : List Step) (id : Correlation)
    (hdepth : path.length + 1 < maxSanitizeDepth) :
    (∀ value json, value.Carries path id → sanitizeValue data value 0 = some json →
      (json.Keeps path id ↔ Unredacted data path ∧ ¬ id.IsCardLike)) ∧
    ∀ timestamp context record json,
      (Value.dict (record.base timestamp context (redactString data record.message))).Carries
        path id →
      JsonFormatter.format data timestamp context record = some json →
        (json.Keeps path id ↔ Unredacted data path ∧ ¬ id.IsCardLike) :=
  ⟨fun _ _ => keeps_sanitizeValue_iff hdepth, fun _ _ _ _ => keeps_format_iff hdepth⟩

/-! ## Two payments -/

/-- The record of a payment that has been created. -/
def paymentCreated (paymentId : UUID) : LogRecord :=
  ⟨"INFO".toList, "create_payment".toList, "payment_created".toList, none,
    some [(.str "payment_id".toList, .str (uuidText paymentId)),
      (.str "status".toList, .str "RECEIVED".toList),
      (.str "destination".toList, .other "null".toList)]⟩

theorem identifier_kept_letters : ∃ json,
    JsonFormatter.format .ascii "2026-02-08T12:00:00+00:00".toList [] (paymentCreated
      0x123e4567e89b42d3a45642661417400a) = some json ∧
      json.Keeps [] (.paymentId 0x123e4567e89b42d3a45642661417400a) := by
  have hwritten : (JsonFormatter.format .ascii "2026-02-08T12:00:00+00:00".toList []
      (paymentCreated 0x123e4567e89b42d3a45642661417400a)).isSome = true := by
    decide +kernel
  obtain ⟨json, hjson⟩ := Option.isSome_iff_exists.1 hwritten
  have hkept := (identifier_kept_iff .ascii [] (.paymentId 0x123e4567e89b42d3a45642661417400a)
    (by decide)).2 _ [] _ json (by decide +kernel) hjson
  exact ⟨json, hjson, hkept.2 ⟨fun step hstep => absurd hstep List.not_mem_nil, by decide⟩⟩

/-- The last group of the UUID is taken for a card number. -/
theorem decimal_group_redacted : ¬ ∀ (data : CharacterData) (path : List Step) (id : Correlation),
    path.length + 1 < maxSanitizeDepth → Unredacted data path →
      ∀ timestamp context record json,
        (Value.dict (record.base timestamp context (redactString data record.message))).Carries
          path id →
        JsonFormatter.format data timestamp context record = some json → json.Keeps path id := by
  intro hkept
  have hwritten : (JsonFormatter.format .ascii "2026-02-08T12:00:00+00:00".toList []
      (paymentCreated 0x123e4567e89b12d3a456426614174000)).isSome = true := by
    decide +kernel
  have hcarries : (Value.dict ((paymentCreated 0x123e4567e89b12d3a456426614174000).base
      "2026-02-08T12:00:00+00:00".toList [] (redactString .ascii (paymentCreated
        0x123e4567e89b12d3a456426614174000).message))).Carries []
        (.paymentId 0x123e4567e89b12d3a456426614174000) := by
    decide +kernel
  obtain ⟨json, hjson⟩ := Option.isSome_iff_exists.1 hwritten
  have hat := hkept .ascii [] _ (by decide) (fun step hstep => absurd hstep List.not_mem_nil) _ []
    _ json hcarries hjson
  exact ((keeps_format_iff (by decide) hcarries hjson).1 hat).2 (by decide)

end Logging

end PaymentsLab
