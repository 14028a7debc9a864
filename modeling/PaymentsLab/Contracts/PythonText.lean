import PaymentsLab.Contracts.Decimal

/-!
# Numbers in texts

`int(text)` and `Decimal(text)` of Python, with the special values a decimal can have. Both read the
decimal digits of every script and skip white space at the ends, `int` less of it than `Decimal`.
-/

namespace PaymentsLab

/-- `str.isspace` of a character. -/
def isPythonSpace (c : Char) : Bool :=
  let n := c.toNat
  (0x9 ≤ n ∧ n ≤ 0xd) ∨ (0x1c ≤ n ∧ n ≤ 0x20) ∨ n = 0x85 ∨ n = 0xa0 ∨ n = 0x1680 ∨
    (0x2000 ≤ n ∧ n ≤ 0x200a) ∨ n = 0x2028 ∨ n = 0x2029 ∨ n = 0x202f ∨ n = 0x205f ∨ n = 0x3000

/-- The zeros of Unicode. -/
def decimalZeros : List Nat :=
  [0x30, 0x660, 0x6f0, 0x7c0, 0x966, 0x9e6, 0xa66, 0xae6, 0xb66, 0xbe6, 0xc66, 0xce6, 0xd66, 0xde6,
    0xe50, 0xed0, 0xf20, 0x1040, 0x1090, 0x17e0, 0x1810, 0x1946, 0x19d0, 0x1a80, 0x1a90, 0x1b50,
    0x1bb0, 0x1c40, 0x1c50, 0xa620, 0xa8d0, 0xa900, 0xa9d0, 0xa9f0, 0xaa50, 0xabf0, 0xff10, 0x104a0,
    0x10d30, 0x11066, 0x110f0, 0x11136, 0x111d0, 0x112f0, 0x11450, 0x114d0, 0x11650, 0x116c0,
    0x11730, 0x118e0, 0x11950, 0x11c50, 0x11d50, 0x11da0, 0x11f50, 0x16a60, 0x16ac0, 0x16b50,
    0x1d7ce, 0x1d7d8, 0x1d7e2, 0x1d7ec, 0x1d7f6, 0x1e140, 0x1e2f0, 0x1e4f0, 0x1e950, 0x1fbf0]

/-- The value of a decimal digit. -/
def digitValue? (c : Char) : Option Nat :=
  (decimalZeros.find? fun z => z ≤ c.toNat ∧ c.toNat < z + 10).map (c.toNat - ·)

/-- `isspace` of C, which `int` skips in ASCII: not the separators U+001C to U+001F. -/
def isIntSpace (c : Char) : Bool :=
  isPythonSpace c ∧ ¬ (0x1c ≤ c.toNat ∧ c.toNat ≤ 0x1f)

/-- The text without what is skipped at its ends. -/
def stripOf (skipped : Char → Bool) (s : List Char) : List Char :=
  ((s.dropWhile skipped).reverse.dropWhile skipped).reverse

/-- `str.strip`. -/
def pythonStrip (s : List Char) : List Char :=
  stripOf isPythonSpace s

/-- The number a list of digits denotes. -/
def digitsValue? (s : List Char) : Option Nat :=
  (s.mapM digitValue?).map fun digits => digits.foldl (fun n d => 10 * n + d) 0

/-- A sign, if any, and what follows it. -/
def splitSign : List Char → Bool × List Char
  | '-' :: s => (true, s)
  | '+' :: s => (false, s)
  | s => (false, s)

def signed (negative : Bool) (n : Nat) : Int :=
  if negative then -n else n

/-- The digits `int` converts at most. -/
def maxIntDigits : Nat := 4300

/-- `int(text)`: a single underscore may stand between two digits. -/
def pythonInt? (s : List Char) : Option Int :=
  let (negative, s) := splitSign (stripOf isIntSpace s)
  let groups := s.splitOn '_'
  if groups.all (fun group => !group.isEmpty) ∧ groups.flatten.length ≤ maxIntDigits then
    (digitsValue? groups.flatten).map (signed negative)
  else none

example : pythonInt? " +1_0\n".toList = some 10 := by decide

example : pythonInt? "1__0".toList = none := by decide

example : pythonInt? "\x1c5".toList = none := by decide

/-! ## Decimals -/

/-- A `decimal.Decimal`. -/
inductive DecimalValue
  | finite (d : Decimal)
  | infinite (negative : Bool)
  | nan (signaling : Bool)
  deriving DecidableEq

namespace DecimalValue

/-- `MAX_EMAX`. -/
def maxEmax : Int := 999999999999999999

/-- The least exponent, `MIN_ETINY`. -/
def minEtiny : Int := -1999999999999999997

/-- `Emax` of the default context. -/
def contextEmax : Int := 999999

/-- The exponent of the first digit. -/
def adjusted (d : Decimal) : Int :=
  d.exp + (Nat.toDigits 10 d.coeff.natAbs).length - 1

/-- Digits with a point among or beside them, over the exponent `e`. -/
def ofMantissa? (negative : Bool) (mantissa : List Char) (e : Int) : Option DecimalValue :=
  let (whole, rest) := mantissa.span (· ≠ '.')
  let fraction := rest.drop 1
  if whole.isEmpty ∧ fraction.isEmpty then none
  else
    (digitsValue? (whole ++ fraction)).bind fun n =>
      let d : Decimal := ⟨signed negative n, e - fraction.length⟩
      if adjusted d ≤ maxEmax ∧ minEtiny ≤ d.exp then some (.finite d) else none

/-- The exponent after an `e`, if there is one. -/
def exponent? : List Char → Option Int
  | [] => some 0
  | _ :: s =>
    let (negative, digits) := splitSign s
    if digits.isEmpty then none else (digitsValue? digits).map (signed negative)

/-- `Decimal(text)`; underscores are skipped. -/
def ofText? (s : List Char) : Option DecimalValue :=
  let (negative, s) := splitSign (((pythonStrip s).filter (· ≠ '_')).map Char.toLower)
  match s with
  | 'i' :: 'n' :: 'f' :: rest =>
    if rest = [] ∨ rest = "inity".toList then some (.infinite negative) else none
  | 'n' :: 'a' :: 'n' :: diagnostic => (digitsValue? diagnostic).map fun _ => .nan false
  | 's' :: 'n' :: 'a' :: 'n' :: diagnostic => (digitsValue? diagnostic).map fun _ => .nan true
  | s =>
    let (mantissa, e) := s.span (· ≠ 'e')
    (exponent? e).bind (ofMantissa? negative mantissa)

example : ofText? "10.50".toList = some (.finite ⟨1050, -2⟩) := by decide

example : ofText? " -1_0E+2 ".toList = some (.finite ⟨-10, 2⟩) := by decide

/-- `a + b`; `none` is a trapped signal, `InvalidOperation` or `Overflow`. -/
def add : DecimalValue → DecimalValue → Option DecimalValue
  | .nan true, _ => none
  | _, .nan true => none
  | .nan false, _ => some (.nan false)
  | _, .nan false => some (.nan false)
  | .infinite s, .infinite t => if s = t then some (.infinite s) else none
  | .infinite s, .finite _ => some (.infinite s)
  | .finite _, .infinite t => some (.infinite t)
  | .finite a, .finite b =>
    if (a + b).coeff ≠ 0 ∧ contextEmax < adjusted (a + b) then none else some (.finite (a + b))

/-- `a <= b`; `none` is an `InvalidOperation`. -/
def le? : DecimalValue → DecimalValue → Option Bool
  | .nan _, _ => none
  | _, .nan _ => none
  | .infinite s, .infinite t => some (s || !t)
  | .infinite s, .finite _ => some s
  | .finite _, .infinite t => some !t
  | .finite a, .finite b => some (a ≤ b)

/-- `a > b`. -/
def gt? (a b : DecimalValue) : Option Bool :=
  (le? a b).map (!·)

end DecimalValue

end PaymentsLab
