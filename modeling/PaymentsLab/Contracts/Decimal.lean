import Mathlib.Algebra.Ring.Int.Defs
import Mathlib.Data.Rat.Defs

/-!
# Python decimals

A finite `decimal.Decimal` is a coefficient and a power of ten; two of them compare by value.
Arithmetic runs under the default context: a result of more than 28 significant digits, or with
digits below the least exponent, is rounded half to even. `asCents` is `_as_cents` of the limits
service.
-/

namespace PaymentsLab

/-- A finite decimal, `coeff · 10 ^ exp`. -/
structure Decimal where
  coeff : Int
  exp : Int
  deriving DecidableEq, Repr

namespace Decimal

/-- Significant digits of the default context. -/
def contextPrecision : Nat := 28

/-- The least exponent of a result, `Etiny` of the default context. -/
def contextEtiny : Int := -1000026

/-- The rational a decimal stands for. -/
def toRat (d : Decimal) : ℚ :=
  d.coeff * (10 : ℚ) ^ d.exp

/-- The coefficient of `d` over the exponent `e`, when `e ≤ d.exp`. -/
def scaled (d : Decimal) (e : Int) : Int :=
  d.coeff * 10 ^ (d.exp - e).toNat

/-- The integer nearest to `n / d`, ties to the even one (`ROUND_HALF_EVEN`), for `0 < d`. -/
def divHalfEven (n d : Int) : Int :=
  let q := n / d
  let r := 2 * (n % d)
  if r < d then q else if d < r then q + 1 else if q % 2 = 0 then q else q + 1

/-- How many digits of a result the context drops: those beyond its precision, and those below its
least exponent. -/
def dropped (d : Decimal) : Nat :=
  max ((Nat.toDigits 10 d.coeff.natAbs).length - contextPrecision) (contextEtiny - d.exp).toNat

/-- Rounding of a result to the context. -/
def fix (d : Decimal) : Decimal :=
  if d.dropped = 0 then d else ⟨divHalfEven d.coeff (10 ^ d.dropped), d.exp + d.dropped⟩

instance : Add Decimal where
  add a b :=
    let e := min a.exp b.exp
    fix ⟨a.scaled e + b.scaled e, e⟩

instance : Mul Decimal where
  mul a b := fix ⟨a.coeff * b.coeff, a.exp + b.exp⟩

instance (n : Nat) : OfNat Decimal n where
  ofNat := ⟨n, 0⟩

instance : LE Decimal where
  le a b := a.scaled (min a.exp b.exp) ≤ b.scaled (min a.exp b.exp)

instance : LT Decimal where
  lt a b := a.scaled (min a.exp b.exp) < b.scaled (min a.exp b.exp)

instance (a b : Decimal) : Decidable (a ≤ b) :=
  inferInstanceAs (Decidable (a.scaled (min a.exp b.exp) ≤ b.scaled (min a.exp b.exp)))

instance (a b : Decimal) : Decidable (a < b) :=
  inferInstanceAs (Decidable (a.scaled (min a.exp b.exp) < b.scaled (min a.exp b.exp)))

/-- The sum of a `numeric` column, which the database computes exactly. -/
def sum (ds : List Decimal) : Decimal :=
  ds.foldr (fun a b =>
    let e := min a.exp b.exp
    ⟨a.scaled e + b.scaled e, e⟩) 0

/-- The integer nearest to `n / d`, ties away from zero, for `0 < d`. -/
def divHalfAway (n d : Int) : Int :=
  n.sign * ((2 * n.natAbs + d) / (2 * d))

/-- A value in a `Numeric(18, 2)` column. -/
def toNumeric (d : Decimal) : Decimal :=
  if -2 ≤ d.exp then ⟨d.scaled (-2), -2⟩
  else ⟨divHalfAway d.coeff (10 ^ (-2 - d.exp).toNat), -2⟩

/-- `int(d.to_integral_value())`: the nearest integer, ties to even. -/
def toIntegral (d : Decimal) : Int :=
  if 0 ≤ d.exp then d.coeff * 10 ^ d.exp.toNat else divHalfEven d.coeff (10 ^ (-d.exp).toNat)

/-- `_as_cents`: `int((amount * 100).to_integral_value())`. -/
def asCents (amount : Decimal) : Int :=
  (amount * 100).toIntegral

example : asCents ⟨10050, -2⟩ = 10050 := by decide

example : asCents ⟨1005, -3⟩ = 100 := by decide

example : toNumeric ⟨1005, -3⟩ = ⟨101, -2⟩ := by decide

end Decimal

end PaymentsLab
