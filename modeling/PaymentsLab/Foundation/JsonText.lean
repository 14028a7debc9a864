import Mathlib.Data.List.TakeDrop

/-!
# JSON texts

Documents are written with every character outside printable ASCII escaped, and read again by a
scanner. A literal (a number, `true`, `null`) is kept as its text. What is written is read as the
document that was written (`loads?_dump`).
-/

namespace Foundation

namespace JsonText

/-- A JSON document. -/
inductive Document
  | literal (text : List Char)
  | str (text : List Char)
  | array (items : List Document)
  | object (members : List (List Char × Document))

/-! ## Strings -/

def quote : Char := Char.ofNat 34

def backslash : Char := Char.ofNat 92

/-- Four hexadecimal digits. -/
def hex4 (n : Nat) : List Char :=
  [Nat.digitChar (n / 4096 % 16), Nat.digitChar (n / 256 % 16), Nat.digitChar (n / 16 % 16),
    Nat.digitChar (n % 16)]

/-- A code unit of UTF-16, escaped. -/
def escapeUnit (n : Nat) : List Char :=
  backslash :: 'u' :: hex4 n

/-- The characters that have an escape of their own, and the letter of it. -/
def shortEscapes : List (Char × Char) :=
  [(quote, quote), (backslash, backslash), (Char.ofNat 10, 'n'), (Char.ofNat 13, 'r'),
    (Char.ofNat 9, 't'), (Char.ofNat 8, 'b'), (Char.ofNat 12, 'f')]

def isPrintable (c : Char) : Bool :=
  32 ≤ c.toNat && c.toNat < 127

/-- A character of a string as it is written; outside the basic plane as a surrogate pair. -/
def escape (c : Char) : List Char :=
  match shortEscapes.lookup c with
  | some letter => [backslash, letter]
  | none =>
    if isPrintable c then [c]
    else if c.toNat < 0x10000 then escapeUnit c.toNat
    else
      escapeUnit (0xD800 + (c.toNat - 0x10000) / 0x400) ++
        escapeUnit (0xDC00 + (c.toNat - 0x10000) % 0x400)

def dumpString (text : List Char) : List Char :=
  quote :: (text.flatMap escape ++ [quote])

def hexValue? (c : Char) : Option Nat :=
  if '0' ≤ c ∧ c ≤ '9' then some (c.toNat - 48)
  else if 'a' ≤ c ∧ c ≤ 'f' then some (c.toNat - 87)
  else if 'A' ≤ c ∧ c ≤ 'F' then some (c.toNat - 55)
  else none

def hex4? : List Char → Option (Nat × List Char)
  | a :: b :: c :: d :: s =>
    match hexValue? a, hexValue? b, hexValue? c, hexValue? d with
    | some a, some b, some c, some d => some (((a * 16 + b) * 16 + c) * 16 + d, s)
    | _, _, _, _ => none
  | _ => none

/-- The low half of a surrogate pair whose high half is `n`. -/
def readLow? (n : Nat) : List Char → Option (Char × List Char)
  | c :: 'u' :: s =>
    if c = backslash then
      (hex4? s).bind fun (m, s) =>
        if 0xDC00 ≤ m ∧ m < 0xE000 then
          some (Char.ofNat (0x10000 + (n - 0xD800) * 0x400 + (m - 0xDC00)), s)
        else none
    else none
  | _ => none

/-- The character after `\u`. A half of a surrogate pair alone is no character. -/
def readUnit? (s : List Char) : Option (Char × List Char) :=
  (hex4? s).bind fun (n, s) =>
    if 0xD800 ≤ n ∧ n < 0xDC00 then readLow? n s
    else if 0xDC00 ≤ n ∧ n < 0xE000 then none
    else some (Char.ofNat n, s)

/-- The character after a backslash. -/
def readEscape? : List Char → Option (Char × List Char)
  | [] => none
  | letter :: s =>
    if letter = 'u' then readUnit? s
    else if letter = '/' then some ('/', s)
    else (shortEscapes.find? fun e => e.2 = letter).map fun e => (e.1, s)

/-- The next character of a string; control characters have to be escaped. -/
def readChar? : List Char → Option (Char × List Char)
  | [] => none
  | c :: s =>
    if c = backslash then readEscape? s else if c.toNat < 32 then none else some (c, s)

/-- The rest of a string, up to its end. -/
def scanString : (fuel : Nat) → List Char → Option (List Char × List Char)
  | 0, _ => none
  | _ + 1, [] => none
  | fuel + 1, c :: s =>
    if c = quote then some ([], s)
    else
      (readChar? (c :: s)).bind fun (first, s) =>
        (scanString fuel s).map fun (text, s) => (first :: text, s)

/-! ## Documents -/

mutual

/-- The text of a document, with `gap` after every separator. -/
def dump (gap : List Char) : Document → List Char
  | .literal text => text
  | .str text => dumpString text
  | .array [] => ['[', ']']
  | .array (item :: items) => '[' :: (dump gap item ++ dumpItems gap items)
  | .object [] => [Char.ofNat 123, Char.ofNat 125]
  | .object ((key, value) :: members) =>
    Char.ofNat 123 ::
      (dumpString key ++ ':' :: (gap ++ (dump gap value ++ dumpMembers gap members)))

def dumpItems (gap : List Char) : List Document → List Char
  | [] => [']']
  | item :: items => ',' :: (gap ++ (dump gap item ++ dumpItems gap items))

def dumpMembers (gap : List Char) : List (List Char × Document) → List Char
  | [] => [Char.ofNat 125]
  | (key, value) :: members =>
    ',' :: (gap ++ (dumpString key ++ ':' :: (gap ++ (dump gap value ++ dumpMembers gap members))))

end

def isSpace (c : Char) : Bool :=
  c = ' ' || c = Char.ofNat 9 || c = Char.ofNat 10 || c = Char.ofNat 13

def skip (s : List Char) : List Char :=
  s.dropWhile isSpace

def isLiteralChar (c : Char) : Bool :=
  c.isAlphanum || c = '+' || c = '-' || c = '.'

theorem isLiteralChar_of_isDigit {c : Char} (h : c.isDigit = true) : isLiteralChar c = true := by
  unfold isLiteralChar Char.isAlphanum
  rw [h, Bool.or_true, Bool.true_or, Bool.true_or, Bool.true_or]

mutual

def scanValue : (fuel : Nat) → List Char → Option (Document × List Char)
  | 0, _ => none
  | _ + 1, [] => none
  | fuel + 1, c :: s =>
    if c = quote then (scanString (s.length + 1) s).map fun (text, s) => (.str text, s)
    else if c = '[' then
      match skip s with
      | ']' :: s => some (.array [], s)
      | s =>
        (scanValue fuel s).bind fun (item, s) =>
          (scanItems fuel s).map fun (items, s) => (.array (item :: items), s)
    else if c = Char.ofNat 123 then
      match skip s with
      | [] => none
      | c :: s =>
        if c = Char.ofNat 125 then some (.object [], s)
        else
          (scanMember fuel (c :: s)).bind fun (member, s) =>
            (scanMembers fuel s).map fun (members, s) => (.object (member :: members), s)
    else if isLiteralChar c then
      some (.literal ((c :: s).takeWhile isLiteralChar), (c :: s).dropWhile isLiteralChar)
    else none

/-- The items after the first one, up to the bracket. -/
def scanItems : (fuel : Nat) → List Char → Option (List Document × List Char)
  | 0, _ => none
  | fuel + 1, s =>
    match skip s with
    | ']' :: s => some ([], s)
    | ',' :: s =>
      (scanValue fuel (skip s)).bind fun (item, s) =>
        (scanItems fuel s).map fun (items, s) => (item :: items, s)
    | _ => none

/-- A key and its value. -/
def scanMember : (fuel : Nat) → List Char → Option ((List Char × Document) × List Char)
  | 0, _ => none
  | _ + 1, [] => none
  | fuel + 1, c :: s =>
    if c = quote then
      (scanString (s.length + 1) s).bind fun (key, s) =>
        match skip s with
        | ':' :: s => (scanValue fuel (skip s)).map fun (value, s) => ((key, value), s)
        | _ => none
    else none

/-- The members after the first one, up to the brace. -/
def scanMembers : (fuel : Nat) → List Char → Option (List (List Char × Document) × List Char)
  | 0, _ => none
  | fuel + 1, s =>
    match skip s with
    | [] => none
    | c :: s =>
      if c = Char.ofNat 125 then some ([], s)
      else if c = ',' then
        (scanMember fuel (skip s)).bind fun (member, s) =>
          (scanMembers fuel s).map fun (members, s) => (member :: members, s)
      else none

end

/-- The document a text is. -/
def loads? (s : List Char) : Option Document :=
  match scanValue (s.length + 1) (skip s) with
  | some (document, rest) => if (skip rest).isEmpty then some document else none
  | none => none

/-! ## Characters written and read -/

theorem hexValue?_digitChar {d : Nat} (h : d < 16) : hexValue? (Nat.digitChar d) = some d := by
  have hall : ∀ d < 16, hexValue? (Nat.digitChar d) = some d := by decide
  exact hall d h

theorem hex4?_hex4 {n : Nat} (h : n < 0x10000) (s : List Char) :
    hex4? (hex4 n ++ s) = some (n, s) := by
  have hdigit (m : Nat) : hexValue? (Nat.digitChar (m % 16)) = some (m % 16) :=
    hexValue?_digitChar (Nat.mod_lt m (by decide))
  simp only [hex4, List.cons_append, List.nil_append, hex4?, hdigit]
  congr 2
  omega

theorem mem_shortEscapes {c letter : Char} (h : shortEscapes.lookup c = some letter) :
    (c, letter) ∈ shortEscapes := by
  generalize shortEscapes = escapes at h ⊢
  induction escapes with
  | nil => cases h
  | cons e escapes ih =>
    rw [List.lookup_cons] at h
    split at h
    · next heq =>
      cases h
      rw [eq_of_beq heq]
      exact List.mem_cons_self
    · exact List.mem_cons_of_mem _ (ih h)

/-- The letters are read as what they stand for. -/
theorem readChar?_shortEscape {c letter : Char} (h : (c, letter) ∈ shortEscapes) (s : List Char) :
    readChar? (backslash :: letter :: s) = some (c, s) := by
  have hletter : letter ≠ 'u' ∧ letter ≠ '/' ∧
      (shortEscapes.find? fun e => e.2 = letter) = some (c, letter) := by
    have hall : ∀ e ∈ shortEscapes, e.2 ≠ 'u' ∧ e.2 ≠ '/' ∧
        (shortEscapes.find? fun e' => e'.2 = e.2) = some e := by decide
    exact hall _ h
  rw [readChar?, if_pos rfl, readEscape?, if_neg hletter.1, if_neg hletter.2.1, hletter.2.2]
  rfl

theorem readUnit?_hex4 {n : Nat} (h : n < 0x10000) (hscalar : n < 0xD800 ∨ 0xDFFF < n)
    (s : List Char) : readUnit? (hex4 n ++ s) = some (Char.ofNat n, s) := by
  rw [readUnit?, hex4?_hex4 h, Option.bind_some]
  simp only
  rw [if_neg (by omega), if_neg (by omega)]

/-- A surrogate pair is read as its character. -/
theorem readUnit?_surrogates {k : Nat} (h : k < 0x100000) (s : List Char) :
    readUnit? (hex4 (0xD800 + k / 0x400) ++ (escapeUnit (0xDC00 + k % 0x400) ++ s)) =
      some (Char.ofNat (0x10000 + k), s) := by
  rw [readUnit?, hex4?_hex4 (by omega), Option.bind_some]
  simp only
  rw [if_pos (by omega), escapeUnit, List.cons_append, List.cons_append, readLow?, if_pos rfl,
    hex4?_hex4 (by omega), Option.bind_some]
  simp only
  rw [if_pos (by omega), show 0x10000 + (0xD800 + k / 0x400 - 0xD800) * 0x400 +
    (0xDC00 + k % 0x400 - 0xDC00) = 0x10000 + k by omega]

theorem readChar?_escapeUnit (n : Nat) (s : List Char) :
    readChar? (escapeUnit n ++ s) = readUnit? (hex4 n ++ s) := by
  rw [escapeUnit, List.cons_append, List.cons_append, readChar?, if_pos rfl, readEscape?,
    if_pos rfl]

/-- A character is read as it was written. -/
theorem readChar?_escape (c : Char) (s : List Char) :
    readChar? (escape c ++ s) = some (c, s) := by
  have hvalid : c.toNat < 0xD800 ∨ 0xDFFF < c.toNat ∧ c.toNat < 0x110000 := c.valid
  unfold escape
  cases hshort : shortEscapes.lookup c with
  | some letter => exact readChar?_shortEscape (mem_shortEscapes hshort) s
  | none =>
    simp only
    split
    · next hprintable =>
      simp only [isPrintable, Bool.and_eq_true, decide_eq_true_eq] at hprintable
      have hc : c ≠ backslash := by
        rintro rfl
        exact absurd hshort (by decide)
      rw [List.singleton_append, readChar?, if_neg hc, if_neg (by omega)]
    · split
      · next hbmp =>
        rw [readChar?_escapeUnit, readUnit?_hex4 hbmp (by omega), Char.ofNat_toNat]
      · next hastral =>
        rw [List.append_assoc, readChar?_escapeUnit, readUnit?_surrogates (by omega),
          show 0x10000 + (c.toNat - 0x10000) = c.toNat by omega, Char.ofNat_toNat]

/-- The first character of an escape ends no string. -/
theorem exists_escape (c : Char) : ∃ first rest, escape c = first :: rest ∧ first ≠ quote := by
  unfold escape
  cases hshort : shortEscapes.lookup c with
  | some letter => exact ⟨backslash, _, rfl, by decide⟩
  | none =>
    simp only
    split
    · refine ⟨c, _, rfl, ?_⟩
      rintro rfl
      exact absurd hshort (by decide)
    · split
      · exact ⟨backslash, _, rfl, by decide⟩
      · exact ⟨backslash, _, rfl, by decide⟩

/-- A string is read as it was written. -/
theorem scanString_dump {text : List Char} {fuel : Nat} (h : text.length < fuel) (s : List Char) :
    scanString fuel (text.flatMap escape ++ quote :: s) = some (text, s) := by
  induction text generalizing fuel with
  | nil =>
    obtain ⟨fuel, rfl⟩ := Nat.exists_eq_add_one_of_ne_zero (Nat.ne_of_gt h)
    rw [List.flatMap_nil, List.nil_append, scanString, if_pos rfl]
  | cons c text ih =>
    obtain ⟨fuel, rfl⟩ := Nat.exists_eq_add_one_of_ne_zero (Nat.ne_of_gt (Nat.zero_lt_of_lt h))
    obtain ⟨first, rest, hescape, hfirst⟩ := exists_escape c
    have hread := readChar?_escape c (text.flatMap escape ++ quote :: s)
    rw [hescape, List.cons_append] at hread
    rw [List.flatMap_cons, List.append_assoc, hescape, List.cons_append, scanString, if_neg hfirst,
      hread, Option.bind_some]
    simp only [ih (Nat.lt_of_succ_lt_succ h), Option.map_some]

theorem length_le_flatMap_escape (text : List Char) :
    text.length ≤ (text.flatMap escape).length := by
  induction text with
  | nil => exact Nat.le_refl 0
  | cons c text ih =>
    obtain ⟨first, rest, hescape, -⟩ := exists_escape c
    rw [List.flatMap_cons, List.length_append, hescape, List.length_cons, List.length_cons]
    omega

/-- A written string is read, with fuel for all that follows. -/
theorem scanString_dumpString (text s : List Char) :
    scanString ((text.flatMap escape ++ [quote] ++ s).length + 1)
      (text.flatMap escape ++ [quote] ++ s) = some (text, s) := by
  have hlength := length_le_flatMap_escape text
  rw [List.append_assoc, List.singleton_append]
  refine scanString_dump ?_ s
  rw [List.length_append]
  omega

/-! ## Documents written and read -/

mutual

/-- Every literal is a run of the characters of literals. -/
def Document.WF : Document → Prop
  | .literal text => text ≠ [] ∧ ∀ c ∈ text, isLiteralChar c = true
  | .str _ => True
  | .array items => WFItems items
  | .object members => WFMembers members

def WFItems : List Document → Prop
  | [] => True
  | item :: items => item.WF ∧ WFItems items

def WFMembers : List (List Char × Document) → Prop
  | [] => True
  | (_, value) :: members => value.WF ∧ WFMembers members

end

mutual

/-- The fuel it takes to read a document. -/
def cost : Document → Nat
  | .literal _ => 1
  | .str _ => 1
  | .array [] => 1
  | .array (item :: items) => 1 + cost item + costItems items
  | .object [] => 1
  | .object ((_, value) :: members) => 2 + cost value + costMembers members

def costItems : List Document → Nat
  | [] => 1
  | item :: items => 1 + cost item + costItems items

def costMembers : List (List Char × Document) → Nat
  | [] => 1
  | (_, value) :: members => 2 + cost value + costMembers members

end

/-- No literal goes on. -/
def Delimited (s : List Char) : Prop :=
  ∀ c ∈ s.head?, isLiteralChar c = false

variable {gap : List Char}

theorem isSpace_of_isLiteralChar {c : Char} (h : isLiteralChar c = true) : isSpace c = false := by
  unfold isSpace
  by_contra hspace
  simp only [Bool.not_eq_false, Bool.or_eq_true, decide_eq_true_eq] at hspace
  rcases hspace with ((rfl | rfl) | rfl) | rfl <;> exact absurd h (by decide)

theorem skip_cons {c : Char} {s : List Char} (h : isSpace c = false) : skip (c :: s) = c :: s := by
  rw [skip, List.dropWhile_cons, h]
  rfl

theorem skip_gap (hgap : ∀ c ∈ gap, isSpace c = true) (s : List Char) :
    skip (gap ++ s) = skip s :=
  List.dropWhile_append_of_pos hgap

/-- What a document begins with. -/
theorem exists_dump (gap : List Char) {d : Document} (hd : d.WF) :
    ∃ c s, dump gap d = c :: s ∧ isSpace c = false ∧ c ≠ ']' := by
  match d, hd with
  | .literal text, hd =>
    obtain ⟨c, s, rfl⟩ := List.exists_cons_of_ne_nil hd.1
    have hc := hd.2 c List.mem_cons_self
    refine ⟨c, s, by rw [dump], isSpace_of_isLiteralChar hc, ?_⟩
    rintro rfl
    exact absurd hc (by decide)
  | .str text, _ => exact ⟨quote, _, by rw [dump, dumpString], by decide, by decide⟩
  | .array [], _ => exact ⟨'[', _, by rw [dump], by decide, by decide⟩
  | .array (item :: items), _ => exact ⟨'[', _, by rw [dump], by decide, by decide⟩
  | .object [], _ => exact ⟨Char.ofNat 123, _, by rw [dump], by decide, by decide⟩
  | .object ((key, value) :: members), _ =>
    exact ⟨Char.ofNat 123, _, by rw [dump], by decide, by decide⟩

theorem skip_dump {d : Document} (hd : d.WF) (s : List Char) :
    skip (dump gap d ++ s) = dump gap d ++ s := by
  obtain ⟨c, t, hdump, hspace, -⟩ := exists_dump gap hd
  rw [hdump]
  exact skip_cons hspace

theorem delimited_cons {c : Char} (h : isLiteralChar c = false) (s : List Char) :
    Delimited (c :: s) := by
  intro c' hc
  cases hc
  exact h

theorem delimited_dumpItems (gap : List Char) (items : List Document) (s : List Char) :
    Delimited (dumpItems gap items ++ s) := by
  cases items with
  | nil => exact delimited_cons (by decide) _
  | cons item items => exact delimited_cons (by decide) _

theorem delimited_dumpMembers (gap : List Char) (members : List (List Char × Document))
    (s : List Char) :
    Delimited (dumpMembers gap members ++ s) := by
  cases members with
  | nil => exact delimited_cons (by decide) _
  | cons member members => exact delimited_cons (by decide) _

theorem takeWhile_literal {text s : List Char} (htext : ∀ c ∈ text, isLiteralChar c = true)
    (hs : Delimited s) : (text ++ s).takeWhile isLiteralChar = text ∧
      (text ++ s).dropWhile isLiteralChar = s := by
  induction text with
  | nil =>
    cases s with
    | nil => exact ⟨rfl, rfl⟩
    | cons c s =>
      have hc : isLiteralChar c = false := hs c rfl
      simp [hc]
  | cons c text ih =>
    obtain ⟨htake, hdrop⟩ := ih fun c' hc' => htext c' (List.mem_cons_of_mem c hc')
    simp [htext c List.mem_cons_self, htake, hdrop]

section Scan

variable (hgap : ∀ c ∈ gap, isSpace c = true)

include hgap

/-- A member is read, if its value is. -/
theorem scanMember_dump (key : List Char) {value : Document} {fuel : Nat} {s : List Char}
    (hvalue : value.WF)
    (hscan : scanValue fuel (dump gap value ++ s) = some (value, s)) :
    scanMember (fuel + 1) (dumpString key ++ ':' :: (gap ++ (dump gap value ++ s))) =
      some ((key, value), s) := by
  rw [dumpString, List.cons_append, scanMember, if_pos rfl, scanString_dumpString,
    Option.bind_some]
  simp only
  rw [skip_cons (by decide)]
  simp only
  rw [skip_gap hgap, skip_dump hvalue, hscan]
  rfl

mutual

/-- A document is read as it was written. -/
theorem scanValue_dump : ∀ {d : Document}, d.WF → ∀ fuel : Nat, cost d ≤ fuel →
    ∀ s : List Char, Delimited s → scanValue fuel (dump gap d ++ s) = some (d, s)
  | .literal text, hd, fuel, hfuel, s, hs => by
    obtain ⟨fuel, rfl⟩ := Nat.exists_eq_add_one_of_ne_zero (Nat.ne_of_gt hfuel)
    obtain ⟨c, t, rfl⟩ := List.exists_cons_of_ne_nil hd.1
    obtain ⟨htake, hdrop⟩ := takeWhile_literal hd.2 hs
    have hc := hd.2 c List.mem_cons_self
    have hne {c' : Char} (h : isLiteralChar c' = false) : c ≠ c' := by
      rintro rfl
      rw [hc] at h
      cases h
    rw [List.cons_append] at htake hdrop
    rw [dump, List.cons_append, scanValue, if_neg (hne (by decide)), if_neg (hne (by decide)),
      if_neg (hne (by decide)), if_pos hc, htake, hdrop]
  | .str text, _, fuel, hfuel, s, _ => by
    obtain ⟨fuel, rfl⟩ := Nat.exists_eq_add_one_of_ne_zero (Nat.ne_of_gt hfuel)
    rw [dump, dumpString, List.cons_append, scanValue, if_pos rfl, scanString_dumpString]
    rfl
  | .array [], _, fuel, hfuel, s, _ => by
    obtain ⟨fuel, rfl⟩ := Nat.exists_eq_add_one_of_ne_zero (Nat.ne_of_gt hfuel)
    rfl
  | .array (item :: items), hd, fuel, hfuel, s, _ => by
    have hfuel : 1 + cost item + costItems items ≤ fuel := hfuel
    obtain ⟨fuel, rfl⟩ := Nat.exists_eq_add_one_of_ne_zero (n := fuel) (by omega)
    obtain ⟨c, t, hdump, hspace, hbracket⟩ := exists_dump gap hd.1
    have hitem := scanValue_dump hd.1 fuel (by omega) _ (delimited_dumpItems gap items s)
    have hitems := scanItems_dump hd.2 fuel (by omega) s
    rw [dump, List.cons_append, scanValue, if_neg (by decide), if_pos rfl, List.append_assoc,
      skip_dump hd.1]
    rw [hdump, List.cons_append] at hitem ⊢
    split
    · next heq => exact absurd (List.cons.inj heq).1 hbracket
    · rw [hitem, Option.bind_some]
      simp only [hitems, Option.map_some]
  | .object [], _, fuel, hfuel, s, _ => by
    obtain ⟨fuel, rfl⟩ := Nat.exists_eq_add_one_of_ne_zero (Nat.ne_of_gt hfuel)
    rfl
  | .object ((key, value) :: members), hd, fuel, hfuel, s, _ => by
    have hfuel : 2 + cost value + costMembers members ≤ fuel := hfuel
    obtain ⟨fuel, rfl⟩ := Nat.exists_eq_add_one_of_ne_zero (n := fuel) (by omega)
    obtain ⟨fuel, rfl⟩ := Nat.exists_eq_add_one_of_ne_zero (n := fuel) (by omega)
    have hvalue := scanValue_dump hd.1 fuel (by omega) _ (delimited_dumpMembers gap members s)
    have hmember := scanMember_dump hgap key hd.1 hvalue
    have hmembers := scanMembers_dump hd.2 (fuel + 1) (by omega) s
    rw [dump, List.cons_append, scanValue, if_neg (by decide), if_neg (by decide), if_pos rfl]
    simp only [List.append_assoc, List.cons_append]
    rw [dumpString, List.cons_append] at hmember ⊢
    rw [skip_cons (by decide)]
    simp only
    rw [if_neg (by decide), hmember, Option.bind_some]
    simp only [hmembers, Option.map_some]

theorem scanItems_dump : ∀ {items : List Document}, WFItems items → ∀ fuel : Nat,
    costItems items ≤ fuel → ∀ s : List Char,
    scanItems fuel (dumpItems gap items ++ s) = some (items, s)
  | [], _, fuel, hfuel, s => by
    obtain ⟨fuel, rfl⟩ := Nat.exists_eq_add_one_of_ne_zero (Nat.ne_of_gt hfuel)
    rfl
  | item :: items, hd, fuel, hfuel, s => by
    have hfuel : 1 + cost item + costItems items ≤ fuel := hfuel
    obtain ⟨fuel, rfl⟩ := Nat.exists_eq_add_one_of_ne_zero (n := fuel) (by omega)
    have hitem := scanValue_dump hd.1 fuel (by omega) _ (delimited_dumpItems gap items s)
    have hitems := scanItems_dump hd.2 fuel (by omega) s
    rw [dumpItems, List.cons_append, scanItems, skip_cons (by decide)]
    simp only
    rw [List.append_assoc, List.append_assoc, skip_gap hgap, skip_dump hd.1, hitem,
      Option.bind_some]
    simp only [hitems, Option.map_some]

theorem scanMembers_dump : ∀ {members : List (List Char × Document)}, WFMembers members →
    ∀ fuel : Nat, costMembers members ≤ fuel → ∀ s : List Char,
    scanMembers fuel (dumpMembers gap members ++ s) = some (members, s)
  | [], _, fuel, hfuel, s => by
    obtain ⟨fuel, rfl⟩ := Nat.exists_eq_add_one_of_ne_zero (Nat.ne_of_gt hfuel)
    rfl
  | (key, value) :: members, hd, fuel, hfuel, s => by
    have hfuel : 2 + cost value + costMembers members ≤ fuel := hfuel
    obtain ⟨fuel, rfl⟩ := Nat.exists_eq_add_one_of_ne_zero (n := fuel) (by omega)
    obtain ⟨fuel, rfl⟩ := Nat.exists_eq_add_one_of_ne_zero (n := fuel) (by omega)
    have hvalue := scanValue_dump hd.1 fuel (by omega) _ (delimited_dumpMembers gap members s)
    have hmember := scanMember_dump hgap key hd.1 hvalue
    have hmembers := scanMembers_dump hd.2 (fuel + 1) (by omega) s
    rw [dumpMembers, List.cons_append, scanMembers, skip_cons (by decide)]
    simp only [List.append_assoc, List.cons_append]
    rw [if_neg (by decide), if_pos trivial, skip_gap hgap]
    rw [dumpString, List.cons_append] at hmember ⊢
    rw [skip_cons (by decide), hmember, Option.bind_some]
    simp only [hmembers, Option.map_some]

end

end Scan

mutual

theorem cost_le_length (gap : List Char) : ∀ {d : Document}, d.WF → cost d ≤ (dump gap d).length
  | .literal text, hd => List.length_pos_iff.2 hd.1
  | .str text, _ => Nat.succ_pos _
  | .array [], _ => Nat.succ_pos _
  | .array (item :: items), hd => by
    have hitem := cost_le_length gap hd.1
    have hitems := costItems_le_length gap hd.2
    simp only [cost, dump, List.length_cons, List.length_append]
    omega
  | .object [], _ => Nat.succ_pos _
  | .object ((key, value) :: members), hd => by
    have hvalue := cost_le_length gap hd.1
    have hmembers := costMembers_le_length gap hd.2
    simp only [cost, dump, List.length_cons, List.length_append]
    omega

theorem costItems_le_length (gap : List Char) :
    ∀ {items : List Document}, WFItems items → costItems items ≤ (dumpItems gap items).length
  | [], _ => Nat.le_refl 1
  | item :: items, hd => by
    have hitem := cost_le_length gap hd.1
    have hitems := costItems_le_length gap hd.2
    simp only [costItems, dumpItems, List.length_cons, List.length_append]
    omega

theorem costMembers_le_length (gap : List Char) : ∀ {members : List (List Char × Document)},
    WFMembers members → costMembers members ≤ (dumpMembers gap members).length
  | [], _ => Nat.le_refl 1
  | (key, value) :: members, hd => by
    have hvalue := cost_le_length gap hd.1
    have hmembers := costMembers_le_length gap hd.2
    simp only [costMembers, dumpMembers, List.length_cons, List.length_append]
    omega

end

/-- A document is what its text is read as. -/
theorem loads?_dump {d : Document} (hd : d.WF) (hgap : ∀ c ∈ gap, isSpace c = true) :
    loads? (dump gap d) = some d := by
  have hscan := scanValue_dump hgap hd ((dump gap d).length + 1)
    (Nat.le_succ_of_le (cost_le_length gap hd)) [] fun c hc => by cases hc
  have hskip := @skip_dump gap d hd []
  rw [List.append_nil] at hscan hskip
  rw [loads?, hskip, hscan]
  rfl

end JsonText

end Foundation
