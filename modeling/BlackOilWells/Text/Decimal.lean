/-!
# Decimals of binary doubles

A finite double is a whole number times a power of two (`Binary`).  The functions here find decimals for it in exact
arithmetic: the nearest one with a given number of digits (`Decimal.ofSignificant`) or of places
(`Decimal.ofPlaces`), where a tie goes to the even digit, and the shortest one that reads back as the same double
(`Decimal.shortest`).
-/

namespace BlackOilWells

/-- A finite magnitude in binary: `mantissa * 2 ^ exponent`. -/
structure Binary where
  mantissa : Nat
  exponent : Int
deriving DecidableEq, Repr

/-- The parts of a double. -/
inductive DoubleParts where
  /-- Not a number. -/
  | nan
  /-- An infinity. -/
  | infinite (negative : Bool)
  /-- A finite number, with its sign. -/
  | finite (negative : Bool) (magnitude : Binary)
deriving DecidableEq, Repr

/-- Take a double apart. -/
def DoubleParts.ofFloat (x : Float) : DoubleParts :=
  let bits := x.toBits.toNat
  let negative := decide (Nat.pow 2 63 ≤ bits)
  let biased : Nat := bits / Nat.pow 2 52 % Nat.pow 2 11
  let fraction := bits % Nat.pow 2 52
  if biased = Nat.pow 2 11 - 1 then if fraction = 0 then .infinite negative else .nan
  else if biased = 0 then .finite negative ⟨fraction, -1074⟩
  else .finite negative ⟨Nat.pow 2 52 + fraction, (biased : Int) - 1075⟩

/-- A decimal: `digits * 10 ^ exponent`, written with a number of digits. -/
structure Decimal where
  /-- The digits, as a number. -/
  digits : Nat
  /-- The exponent of the last digit. -/
  exponent : Int
  /-- The number of digits, leading zeros included. -/
  width : Nat
deriving DecidableEq, Repr

/-! ### Rounding -/

/-- The quotient of two numbers, rounded to nearest; a tie goes to the even quotient. -/
def roundQuotient (a b : Nat) : Nat :=
  let q := a / b
  let r := 2 * (a % b)
  if b < r ∨ (b = r ∧ q % 2 = 1) then q + 1 else q

namespace Binary

/-- Numerator and denominator of the number in units of a power of ten. -/
def inUnits (b : Binary) (unit : Int) : Nat × Nat :=
  (b.mantissa * Nat.pow 2 b.exponent.toNat * Nat.pow 10 (-unit).toNat,
    Nat.pow 2 (-b.exponent).toNat * Nat.pow 10 unit.toNat)

/-- The number in units of a power of ten, rounded. -/
def roundedTo (b : Binary) (unit : Int) : Nat :=
  let (a, d) := b.inUnits unit
  roundQuotient a d

/-- The number of decimal digits of a number; zero has one. -/
def digitCount (n : Nat) : Nat := (Nat.toDigits 10 n).length

/-- The exponent of the leading decimal digit; zero for zero. -/
def leadingExponent (b : Binary) : Int :=
  if b.mantissa = 0 then 0
  else
    let (a, d) := b.inUnits 0
    let guess : Int := digitCount a - digitCount d
    let (a, d) := b.inUnits guess
    if d ≤ a then guess else guess - 1

end Binary

namespace Decimal

/-- The nearest decimal with a given positive number of digits. -/
def ofSignificant (n : Nat) (b : Binary) : Decimal :=
  let unit := b.leadingExponent - (n - 1)
  let d := b.roundedTo unit
  if d = Nat.pow 10 n then ⟨Nat.pow 10 (n - 1), unit + 1, n⟩ else ⟨d, unit, n⟩

/-- The nearest decimal with a given number of places. -/
def ofPlaces (k : Nat) (b : Binary) : Decimal :=
  let d := b.roundedTo (-k)
  ⟨d, -k, Binary.digitCount d⟩

/-- Whether a decimal reads back as a double: it lies between the midpoints to the neighbouring doubles, and on a
midpoint if the mantissa is even.  Below a power of two the lower neighbour is closer. -/
def readsBack (b : Binary) (d : Nat) (unit : Int) : Bool :=
  let quarter : Binary := ⟨1, b.exponent - 2⟩
  let (a, e) := quarter.inUnits unit
  let low := if b.mantissa = Nat.pow 2 52 ∧ -1074 < b.exponent then 4 * b.mantissa - 1 else 4 * b.mantissa - 2
  let high := 4 * b.mantissa + 2
  if b.mantissa % 2 = 0 then low * a ≤ d * e && d * e ≤ high * a else low * a < d * e && d * e < high * a

/-- The nearest decimal with `n` digits among those that read back; a tie goes up. -/
def readingBack? (b : Binary) (n : Nat) : Option Decimal :=
  let unit := b.leadingExponent - (n - 1)
  let (a, e) := b.inUnits unit
  let low := a / e
  let below := readsBack b low unit
  let above := readsBack b (low + 1) unit
  if above && (!below || e ≤ 2 * (a % e)) then some ⟨low + 1, unit, n⟩
  else if below then some ⟨low, unit, n⟩
  else none

/-- The digits as characters. -/
def chars (d : Decimal) : List Char :=
  let ds := Nat.toDigits 10 d.digits
  List.replicate (d.width - ds.length) '0' ++ ds

/-- Drop trailing zeros, but not a single digit. -/
def trimmed (d : Decimal) : Decimal :=
  let zeros := (d.chars.reverse.takeWhile (· = '0')).length
  let zeros := min zeros (d.width - 1)
  ⟨d.digits / Nat.pow 10 zeros, d.exponent + zeros, d.width - zeros⟩

/-- The shortest decimal that reads back as the double, and of those the nearest.  Seventeen digits always suffice. -/
def shortest (b : Binary) : Decimal :=
  if b.mantissa = 0 then ⟨0, 0, 1⟩
  else
    let d := ((List.range 17).findSome? fun n => readingBack? b (n + 1)).getD (ofSignificant 17 b)
    trimmed { d with width := Binary.digitCount d.digits }

end Decimal

end BlackOilWells
