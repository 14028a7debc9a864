import Mathlib.Algebra.Ring.Nat
import PaymentsLab.Logging.Logger

/-!
# Card numbers in logs

When a document that the logger writes has no run of digits that may be a card number
(`redaction_complete_iff`). A word of 12 to 19 digits in a text is redacted, and a sensitive field
is replaced; keys, integers and other values are written as they are, and so is a run of digits with
another character of a word beside it.
-/

namespace PaymentsLab

namespace Logging

open Foundation OrderedDict RunPattern

/-! ## Documents -/

mutual

/-- The texts, keys, integers and other values of a document. -/
def Json.texts : Json → List Text
  | .str text => [text]
  | .int n => [intText n]
  | .other written => [written]
  | .array items => textsOfItems items
  | .object members => textsOfMembers members

def textsOfItems : List Json → List Text
  | [] => []
  | item :: items => item.texts ++ textsOfItems items

def textsOfMembers : List (Text × Json) → List Text
  | [] => []
  | (key, item) :: members => key :: (item.texts ++ textsOfMembers members)

end

section

variable (data : CharacterData)

/-- A maximal run of 12 to 19 digits. -/
def IsCardLike (text : Text) : Prop :=
  (cardLikePattern data).HasRun text

instance (text : Text) : Decidable (IsCardLike data text) :=
  inferInstanceAs (Decidable ((cardLikePattern data).HasRun text))

/-- A text, a key or an integer of the document has such a run. -/
def Json.Leaks (json : Json) : Prop :=
  ∃ text ∈ json.texts, IsCardLike data text

mutual

/-- What stands under the name of a sensitive field is `[REDACTED]`. -/
def Json.FieldsRedacted : Json → Prop
  | .str _ => True
  | .int _ => True
  | .other _ => True
  | .array items => itemsRedacted items
  | .object members => membersRedacted members

def itemsRedacted : List Json → Prop
  | [] => True
  | item :: items => item.FieldsRedacted ∧ itemsRedacted items

def membersRedacted : List (Text × Json) → Prop
  | [] => True
  | (key, item) :: members =>
    (data.lower key ∈ redactedFields → item = .str redacted) ∧ item.FieldsRedacted ∧
      membersRedacted members

end

/-! ## Values that leak -/

mutual

/-- A value that is written at this depth leaks: a text has a run in a word with other characters,
an integer has 12 to 19 digits, what is written for another value has a run, or a part leaks. -/
def Value.Exposes (value : Value) (depth : Nat) : Prop :=
  depth < maxSanitizeDepth ∧
    match value with
    | .str text => (cardLikePattern data).Exposed text
    | .int n => 10 ^ 11 ≤ n.natAbs ∧ n.natAbs < 10 ^ 19
    | .other written => IsCardLike data written
    | .list items => itemsExpose items depth
    | .tuple items => itemsExpose items depth
    | .dict items => mappingExposes items depth

def itemsExpose : List Value → Nat → Prop
  | [], _ => False
  | value :: values, depth => value.Exposes (depth + 1) ∨ itemsExpose values depth

/-- A key leaks with any run. A value is not written if the field is sensitive, or if a later key
has the same text. -/
def mappingExposes : List (Key × Value) → Nat → Prop
  | [], _ => False
  | (key, value) :: values, depth =>
    IsCardLike data key.text ∨
      (data.lower key.text ∉ redactedFields ∧ key.text ∉ values.map (fun item => item.1.text) ∧
        value.Exposes (depth + 1)) ∨
      mappingExposes values depth

end

end

variable {data : CharacterData}

/-! ## Texts -/

theorem not_isDecimal_of_all {text : Text} (h : text.all (fun c => !isDecimal c) = true) :
    ∀ c ∈ text, isDecimal c = false := by
  intro c hc
  have hc := List.all_eq_true.1 h c hc
  rwa [Bool.not_eq_true'] at hc

theorem not_isDecimal_of_redacted : ∀ c ∈ redacted, isDecimal c = false :=
  not_isDecimal_of_all (by decide)

theorem isCardLike_redactString_iff (text : Text) :
    IsCardLike data (redactString data text) ↔ (cardLikePattern data).Exposed text :=
  hasRun_sub_iff not_isDecimal_of_redacted text

theorem not_isCardLike_redacted : ¬ IsCardLike data redacted :=
  not_hasRun_of_no_digit not_isDecimal_of_redacted

theorem not_isCardLike_truncated : ¬ IsCardLike data truncated :=
  not_hasRun_of_no_digit (not_isDecimal_of_all (by decide))

/-- An integer is written as a run of its digits. -/
theorem isCardLike_intText_iff (n : Int) :
    IsCardLike data (intText n) ↔ 10 ^ 11 ≤ n.natAbs ∧ n.natAbs < 10 ^ 19 := by
  have hdigits : IsCardLike data (Nat.toDigits 10 n.natAbs) ↔
      10 ^ 11 ≤ n.natAbs ∧ n.natAbs < 10 ^ 19 := by
    have hlength {k : Nat} (hk : 0 < k) :
        (Nat.toDigits 10 n.natAbs).length ≤ k ↔ n.natAbs < 10 ^ k :=
      Nat.length_toDigits_le_iff (by decide) hk
    have hleast : 12 ≤ (Nat.toDigits 10 n.natAbs).length ↔ 10 ^ 11 ≤ n.natAbs := by
      rw [← Nat.not_lt, ← Nat.not_lt, ← hlength (by decide), Nat.lt_succ_iff]
    have hdecimal : ∀ c ∈ Nat.toDigits 10 n.natAbs, isDecimal c = true := fun c hc =>
      isDecimal_of_isDigit (Nat.isDigit_of_mem_toDigits (by decide) (by decide) hc)
    have hmost : (Nat.toDigits 10 n.natAbs).length ≤ 19 ↔ n.natAbs < 10 ^ 19 := hlength (by decide)
    exact (hasRun_of_digits hdecimal).trans (and_congr hleast hmost)
  unfold intText
  split_ifs
  · have hsign : IsCardLike data ([] ++ '-' :: Nat.toDigits 10 n.natAbs) ↔
        IsCardLike data [] ∨ IsCardLike data (Nat.toDigits 10 n.natAbs) :=
      hasRun_append_cons (by decide : isDecimal '-' = false)
    rw [List.nil_append] at hsign
    rw [hsign, hdigits]
    exact or_iff_right not_hasRun_nil
  · exact hdigits

/-! ## Parts of a document -/

@[simp] theorem leaks_str_iff {text : Text} :
    (Json.str text).Leaks data ↔ IsCardLike data text := by
  unfold Json.Leaks
  rw [Json.texts]
  simp only [List.mem_singleton, exists_eq_left]

@[simp] theorem leaks_int_iff {n : Int} :
    (Json.int n).Leaks data ↔ IsCardLike data (intText n) := by
  unfold Json.Leaks
  rw [Json.texts]
  simp only [List.mem_singleton, exists_eq_left]

@[simp] theorem leaks_other_iff {written : Text} :
    (Json.other written).Leaks data ↔ IsCardLike data written := by
  unfold Json.Leaks
  rw [Json.texts]
  simp only [List.mem_singleton, exists_eq_left]

theorem leaks_array_iff {items : List Json} :
    (Json.array items).Leaks data ↔ ∃ item ∈ items, item.Leaks data := by
  unfold Json.Leaks
  rw [Json.texts]
  induction items with
  | nil => simp [textsOfItems]
  | cons item items ih =>
    simp only [textsOfItems, List.mem_append, or_and_right, exists_or, ih, List.mem_cons,
      exists_eq_left]

theorem leaks_object_iff {members : List (Text × Json)} :
    (Json.object members).Leaks data ↔
      ∃ member ∈ members, IsCardLike data member.1 ∨ member.2.Leaks data := by
  unfold Json.Leaks
  rw [Json.texts]
  induction members with
  | nil => simp [textsOfMembers]
  | cons member members ih =>
    obtain ⟨key, item⟩ := member
    simp only [textsOfMembers, List.mem_cons, List.mem_append, or_and_right, exists_or, ih,
      exists_eq_left, or_assoc]

theorem membersRedacted_iff {members : List (Text × Json)} :
    membersRedacted data members ↔ ∀ member ∈ members,
      (data.lower member.1 ∈ redactedFields → member.2 = .str redacted) ∧
        member.2.FieldsRedacted data := by
  induction members with
  | nil => simp [membersRedacted]
  | cons member members ih =>
    obtain ⟨key, item⟩ := member
    simp only [membersRedacted, ih, List.forall_mem_cons, and_assoc]

/-! ## Sanitized values -/

/-- The members that a mapping leaves, of which some were there before. -/
theorem leaks_setItem_iff {sanitized : List (Text × Json)} {keyText : Text} {item : Json}
    {later : List Text} :
    (∃ member ∈ setItem sanitized keyText item, IsCardLike data member.1 ∨
      member.1 ∉ later ∧ member.2.Leaks data) ↔
    (∃ member ∈ sanitized, IsCardLike data member.1 ∨
      member.1 ∉ keyText :: later ∧ member.2.Leaks data) ∨
    IsCardLike data keyText ∨ keyText ∉ later ∧ item.Leaks data := by
  constructor
  · rintro ⟨member, hmember, hleaks⟩
    rcases mem_setItem.1 hmember with ⟨hmem, hne⟩ | rfl
    · refine .inl ⟨member, hmem, hleaks.imp_right fun h => ⟨?_, h.2⟩⟩
      exact fun hmem => (List.mem_cons.1 hmem).elim hne h.1
    · exact .inr hleaks
  · rintro (⟨member, hmem, hleaks⟩ | hleaks)
    · by_cases hkey : member.1 = keyText
      · refine ⟨(keyText, item), mem_setItem.2 (.inr rfl), .inl ?_⟩
        rcases hleaks with hrun | ⟨hnot, -⟩
        · exact hkey ▸ hrun
        · exact absurd (hkey ▸ List.mem_cons_self) hnot
      · exact ⟨member, mem_setItem.2 (.inl ⟨hmem, hkey⟩), hleaks.imp_right fun h =>
          ⟨fun hlater => h.1 (List.mem_cons_of_mem _ hlater), h.2⟩⟩
    · exact ⟨(keyText, item), mem_setItem.2 (.inr rfl), hleaks⟩

mutual

theorem leaks_sanitizeMapping_iff {sanitized members : List (Text × Json)} :
    ∀ (values : List (Key × Value)) (depth : Nat),
      sanitizeMapping data sanitized values depth = some members →
        ((∃ member ∈ members, IsCardLike data member.1 ∨ member.2.Leaks data) ↔
          (∃ member ∈ sanitized, IsCardLike data member.1 ∨
            member.1 ∉ values.map (fun item => item.1.text) ∧ member.2.Leaks data) ∨
          mappingExposes data values depth)
  | [], depth, h => by
    cases h
    simp only [List.map_nil, List.not_mem_nil, not_false_eq_true, true_and, mappingExposes,
      or_false]
  | (key, value) :: values, depth, h => by
    rw [sanitizeMapping] at h
    obtain ⟨keyText, hkey, h⟩ := Option.bind_eq_some_iff.1 h
    obtain rfl := text_of_toText? hkey
    rw [mappingExposes, List.map_cons]
    split_ifs at h with hfield
    · rw [leaks_sanitizeMapping_iff values depth h, leaks_setItem_iff, or_assoc]
      simp only [leaks_str_iff, not_isCardLike_redacted, and_false, or_false, hfield,
        not_true_eq_false, false_and, false_or]
    · obtain ⟨item, hitem, h⟩ := Option.bind_eq_some_iff.1 h
      rw [leaks_sanitizeMapping_iff values depth h, leaks_setItem_iff, or_assoc,
        leaks_sanitizeValue_iff value (depth + 1) hitem]
      simp only [hfield, not_false_eq_true, true_and, or_assoc]

theorem leaks_sanitizeSequence_iff : ∀ (values : List Value) (depth : Nat) {items : List Json},
    sanitizeSequence data values depth = some items →
      ((∃ item ∈ items, item.Leaks data) ↔ itemsExpose data values depth)
  | [], depth, items, h => by
    cases h
    simp only [List.not_mem_nil, false_and, exists_false, itemsExpose]
  | value :: values, depth, items, h => by
    rw [sanitizeSequence] at h
    obtain ⟨item, hitem, h⟩ := Option.bind_eq_some_iff.1 h
    obtain ⟨items, hitems, rfl⟩ := Option.map_eq_some_iff.1 h
    rw [List.exists_mem_cons_iff, leaks_sanitizeValue_iff value (depth + 1) hitem,
      leaks_sanitizeSequence_iff values depth hitems, itemsExpose]

theorem leaks_sanitizeValue_iff : ∀ (value : Value) (depth : Nat) {json : Json},
    sanitizeValue data value depth = some json → (json.Leaks data ↔ value.Exposes data depth)
  | value, depth, json, h => by
    rw [sanitizeValue.eq_def] at h
    rw [Value.Exposes.eq_def]
    split_ifs at h with hdepth
    · cases h
      rw [leaks_str_iff]
      exact iff_of_false not_isCardLike_truncated fun h => absurd h.1 (Nat.not_lt.2 hdepth)
    · rw [and_iff_right (Nat.not_le.1 hdepth)]
      cases value with
      | str text =>
        cases h
        exact leaks_str_iff.trans (isCardLike_redactString_iff text)
      | int n =>
        cases h
        exact leaks_int_iff.trans (isCardLike_intText_iff n)
      | other written =>
        cases h
        exact leaks_other_iff
      | list items =>
        obtain ⟨items, hitems, rfl⟩ := Option.map_eq_some_iff.1 h
        exact leaks_array_iff.trans (leaks_sanitizeSequence_iff _ depth hitems)
      | tuple items =>
        obtain ⟨items, hitems, rfl⟩ := Option.map_eq_some_iff.1 h
        exact leaks_array_iff.trans (leaks_sanitizeSequence_iff _ depth hitems)
      | dict items =>
        obtain ⟨members, hmembers, rfl⟩ := Option.map_eq_some_iff.1 h
        rw [leaks_object_iff, leaks_sanitizeMapping_iff _ depth hmembers]
        simp only [List.not_mem_nil, false_and, exists_false, false_or]

end

/-! ## Sensitive fields -/

theorem membersRedacted_setItem {sanitized : List (Text × Json)} {keyText : Text} {item : Json}
    (h : membersRedacted data sanitized)
    (hitem : data.lower keyText ∈ redactedFields → item = .str redacted)
    (hparts : item.FieldsRedacted data) :
    membersRedacted data (setItem sanitized keyText item) := by
  rw [membersRedacted_iff] at h ⊢
  intro member hmember
  rcases mem_setItem.1 hmember with ⟨hmem, -⟩ | rfl
  · exact h member hmem
  · exact ⟨hitem, hparts⟩

mutual

theorem membersRedacted_sanitizeMapping {sanitized members : List (Text × Json)} :
    ∀ (values : List (Key × Value)) (depth : Nat), membersRedacted data sanitized →
      sanitizeMapping data sanitized values depth = some members → membersRedacted data members
  | [], depth, hsanitized, h => by
    cases h
    exact hsanitized
  | (key, value) :: values, depth, hsanitized, h => by
    rw [sanitizeMapping] at h
    obtain ⟨keyText, -, h⟩ := Option.bind_eq_some_iff.1 h
    split_ifs at h with hfield
    · exact membersRedacted_sanitizeMapping values depth
        (membersRedacted_setItem hsanitized (fun _ => rfl) trivial) h
    · obtain ⟨item, hitem, h⟩ := Option.bind_eq_some_iff.1 h
      exact membersRedacted_sanitizeMapping values depth
        (membersRedacted_setItem hsanitized (fun hkey => absurd hkey hfield)
          (fieldsRedacted_sanitizeValue value (depth + 1) hitem)) h

theorem itemsRedacted_sanitizeSequence : ∀ (values : List Value) (depth : Nat) {items : List Json},
    sanitizeSequence data values depth = some items → itemsRedacted data items
  | [], depth, items, h => by
    cases h
    trivial
  | value :: values, depth, items, h => by
    rw [sanitizeSequence] at h
    obtain ⟨item, hitem, h⟩ := Option.bind_eq_some_iff.1 h
    obtain ⟨items, hitems, rfl⟩ := Option.map_eq_some_iff.1 h
    exact ⟨fieldsRedacted_sanitizeValue value (depth + 1) hitem,
      itemsRedacted_sanitizeSequence values depth hitems⟩

/-- A sanitized value has its sensitive fields redacted. -/
theorem fieldsRedacted_sanitizeValue : ∀ (value : Value) (depth : Nat) {json : Json},
    sanitizeValue data value depth = some json → json.FieldsRedacted data
  | value, depth, json, h => by
    rw [sanitizeValue.eq_def] at h
    split_ifs at h
    · cases h
      trivial
    · cases value with
      | str text => cases h; trivial
      | int n => cases h; trivial
      | other written => cases h; trivial
      | list items =>
        obtain ⟨items, hitems, rfl⟩ := Option.map_eq_some_iff.1 h
        exact itemsRedacted_sanitizeSequence _ depth hitems
      | tuple items =>
        obtain ⟨items, hitems, rfl⟩ := Option.map_eq_some_iff.1 h
        exact itemsRedacted_sanitizeSequence _ depth hitems
      | dict items =>
        obtain ⟨members, hmembers, rfl⟩ := Option.map_eq_some_iff.1 h
        exact membersRedacted_sanitizeMapping _ depth (membersRedacted_iff.2 (by simp)) hmembers

end

/-! ## Records -/

variable (data) in
/-- Of two values none leaks, or both do. -/
def ExposeAlike (depth : Nat) (value value' : Value) : Prop :=
  value.Exposes data depth ↔ value'.Exposes data depth

theorem mappingExposes_congr {depth : Nat} {items items' : List (Key × Value)}
    (h : Related (ExposeAlike data (depth + 1)) items items') :
    mappingExposes data items depth ↔ mappingExposes data items' depth := by
  induction h with
  | nil => rfl
  | @cons item item' items items' hitem htail ih =>
    obtain ⟨key, value⟩ := item
    obtain ⟨key', value'⟩ := item'
    obtain ⟨rfl, hvalue⟩ := hitem
    have htail : Related (ExposeAlike data (depth + 1)) items items' := htail
    have hkeys := htail.map_key_eq Key.text
    rw [mappingExposes, mappingExposes, hkeys]
    exact or_congr_right (or_congr (and_congr_right' (and_congr_right' hvalue)) ih)

/-- The fields of a record, with its message as it is. -/
def LogRecord.fields (record : LogRecord) (timestamp : Text) (context : List (Key × Value)) :
    List (Key × Value) :=
  record.base timestamp context record.message

/-- Two bases of a record with related messages. -/
theorem LogRecord.related_base {R : Value → Value → Prop} (hR : ∀ value, R value value)
    (record : LogRecord) (timestamp : Text) (context : List (Key × Value)) {message message' : Text}
    (hmessage : R (.str message) (.str message')) :
    Related R (record.base timestamp context message) (record.base timestamp context message') := by
  obtain ⟨levelname, name, _, exception, extraFields⟩ := record
  have hbase : Related R
      [(Key.str "timestamp".toList, .str timestamp), (.str "level".toList, .str levelname),
        (.str "logger".toList, .str name), (.str "message".toList, .str message)]
      [(Key.str "timestamp".toList, .str timestamp), (.str "level".toList, .str levelname),
        (.str "logger".toList, .str name), (.str "message".toList, .str message')] :=
    .cons ⟨rfl, hR _⟩ (.cons ⟨rfl, hR _⟩ (.cons ⟨rfl, hR _⟩ (.cons ⟨rfl, hmessage⟩ .nil)))
  cases exception with
  | none =>
    have hcontext := hbase.update hR context
    cases extraFields with
    | none => exact hcontext
    | some extraFields => exact hcontext.update hR extraFields
  | some exception =>
    have hexception : Related R (setItem _ (Key.str "exception".toList) (.str exception))
        (setItem _ (Key.str "exception".toList) (.str exception)) := hbase.setItem (hR _)
    have hcontext := hexception.update hR context
    cases extraFields with
    | none => exact hcontext
    | some extraFields => exact hcontext.update hR extraFields

/-- A redacted message leaks iff the message does. -/
theorem mappingExposes_base_iff (record : LogRecord) (timestamp : Text)
    (context : List (Key × Value)) :
    mappingExposes data (record.base timestamp context (redactString data record.message)) 0 ↔
      mappingExposes data (record.fields timestamp context) 0 := by
  refine mappingExposes_congr (record.related_base (fun _ => Iff.rfl) timestamp context ?_)
  unfold ExposeAlike
  rw [Value.Exposes, Value.Exposes]
  exact and_congr_right' (exposed_sub_iff not_isDecimal_of_redacted _)

/-- The document leaks iff a field of the record does; its sensitive fields are always redacted. -/
theorem redaction_complete_iff (timestamp : Text) (context : List (Key × Value))
    (record : LogRecord) {json : Json}
    (h : JsonFormatter.format data timestamp context record = some json) :
    ¬ json.Leaks data ∧ json.FieldsRedacted data ↔
      ¬ mappingExposes data (record.fields timestamp context) 0 := by
  obtain ⟨sanitized, hsanitized, hdumps⟩ := Option.bind_eq_some_iff.1 h
  obtain rfl := eq_of_dumps hdumps
  rw [and_iff_left (fieldsRedacted_sanitizeValue _ 0 hsanitized),
    leaks_sanitizeValue_iff _ 0 hsanitized, Value.Exposes, and_iff_right (by decide)]
  exact not_congr (mappingExposes_base_iff record timestamp context)

/-! ## Two records -/

/-- A record with extra fields. -/
def LogRecord.sample (extraFields : List (Key × Value)) : LogRecord :=
  ⟨"INFO".toList, "test".toList, "card number 4111111111111111 should be hidden".toList, none,
    some extraFields⟩

/-- A text that is a card number. -/
def cardText : List (Key × Value) :=
  [(.str "metadata".toList, .dict [(.str "plain".toList, .str "4111111111111111".toList)]),
    (.str "destination".toList, .str "pix-key-123".toList)]

/-- An integer that is a card number. -/
def cardInteger : List (Key × Value) :=
  [(.str "reference".toList, .int 4111111111111111)]

theorem redaction_complete_card_text : ∃ json,
    JsonFormatter.format .ascii "2026-02-08T12:00:00+00:00".toList [] (.sample cardText) =
      some json ∧
      ¬ json.Leaks .ascii ∧ json.FieldsRedacted .ascii := by
  refine ⟨_, rfl, (redaction_complete_iff _ [] (.sample cardText) rfl).2 ?_⟩
  have hfields : (LogRecord.sample cardText).fields "2026-02-08T12:00:00+00:00".toList [] =
      [(.str "timestamp".toList, .str "2026-02-08T12:00:00+00:00".toList),
        (.str "level".toList, .str "INFO".toList), (.str "logger".toList, .str "test".toList),
        (.str "message".toList, .str "card number 4111111111111111 should be hidden".toList),
        (.str "metadata".toList, .dict [(.str "plain".toList, .str "4111111111111111".toList)]),
        (.str "destination".toList, .str "pix-key-123".toList)] :=
    rfl
  rw [hfields]
  simp only [mappingExposes, Value.Exposes, not_or, or_false]
  and_intros <;> decide +kernel

/-- An integer of 16 digits is written as it is. -/
theorem integer_not_redacted : ¬ ∀ (data : CharacterData) (timestamp : Text)
    (context : List (Key × Value)) (record : LogRecord) (json : Json),
    JsonFormatter.format data timestamp context record = some json →
      ¬ json.Leaks data ∧ json.FieldsRedacted data := by
  intro hcomplete
  refine (hcomplete .ascii "2026-02-08T12:00:00+00:00".toList [] (.sample cardInteger) _ rfl).1 ?_
  refine ⟨intText 4111111111111111, ?_, by decide +kernel⟩
  decide +kernel

end Logging

end PaymentsLab
