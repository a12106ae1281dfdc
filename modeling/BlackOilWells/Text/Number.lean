import BlackOilWells.Text.Decimal

/-!
# Numbers as text

How doubles are written and read.  A `NumberFormat` says how many digits are written, when an exponent is used and
whether a whole number keeps a point; the formats in use are listed below.  Infinities are `inf` and `-inf`, and what is
not a number is `NaN`.
-/

namespace BlackOilWells

/-- How many digits of a number are written. -/
inductive DigitCount where
  /-- As few as read back as the same number. -/
  | shortest
  /-- A number of places after the point. -/
  | places (k : Nat)
  /-- A number of digits in total. -/
  | significant (n : Nat)
deriving DecidableEq, Repr

/-- How numbers are written. -/
structure NumberFormat where
  /-- How many digits. -/
  digits : DigitCount
  /-- The exponents of the leading digit for which the number is written without an exponent. -/
  positional : Int → Bool
  /-- Whether a whole number without an exponent keeps a zero after the point. -/
  wholePoint : Bool
  /-- Whether trailing zeros are dropped. -/
  trimmed : Bool

namespace Decimal

/-- The exponent of the first digit. -/
def leading (d : Decimal) : Int := d.exponent + d.width - 1

/-- The decimal without an exponent. -/
def positional (d : Decimal) (wholePoint : Bool) : String :=
  let ds := d.chars
  if 0 ≤ d.exponent then
    String.ofList (ds ++ List.replicate d.exponent.toNat '0') ++ if wholePoint then ".0" else ""
  else
    let places := (-d.exponent).toNat
    let ds := List.replicate (places + 1 - ds.length) '0' ++ ds
    let whole := ds.length - places
    String.ofList (ds.take whole) ++ "." ++ String.ofList (ds.drop whole)

/-- The decimal with one digit before the point and an exponent. -/
def scientific (d : Decimal) : String :=
  let mantissa := match d.chars with
    | [] => ""
    | [c] => String.singleton c
    | c :: cs => String.singleton c ++ "." ++ String.ofList cs
  s!"{mantissa}e{d.leading}"

end Decimal

namespace NumberFormat

/-- As few digits as possible, never with an exponent. -/
def plain : NumberFormat := ⟨.shortest, fun _ => true, false, false⟩

/-- As few digits as possible; a number that is very small or very large has an exponent, and any other a point. -/
def pointed : NumberFormat := ⟨.shortest, fun e => -4 ≤ e && e < 16, true, false⟩

/-- As few digits as possible, always with an exponent. -/
def scientific : NumberFormat := ⟨.shortest, fun _ => false, false, false⟩

/-- A number of places after the point. -/
def fixed (k : Nat) : NumberFormat := ⟨.places k, fun _ => true, false, false⟩

/-- A number of places after the point of the mantissa, always with an exponent. -/
def scientificPlaces (k : Nat) : NumberFormat := ⟨.significant (k + 1), fun _ => false, false, false⟩

/-- A number of digits without trailing zeros, always with an exponent. -/
def rounded (n : Nat) : NumberFormat := ⟨.significant n, fun _ => false, false, true⟩

/-- The decimal to write for a number. -/
def decimal (f : NumberFormat) (b : Binary) : Decimal :=
  let d := match f.digits with
    | .shortest => Decimal.shortest b
    | .places k => Decimal.ofPlaces k b
    | .significant n => Decimal.ofSignificant n b
  if f.trimmed then d.trimmed else d

/-- Write a number. -/
def write (f : NumberFormat) (x : Float) : String :=
  match DoubleParts.ofFloat x with
  | .nan => "NaN"
  | .infinite negative => if negative then "-inf" else "inf"
  | .finite negative b =>
    let d := f.decimal b
    (if negative then "-" else "") ++ if f.positional d.leading then d.positional f.wholePoint else d.scientific

end NumberFormat

/-! ### Columns -/

/-- Fill up with blanks on the left. -/
def padLeft (width : Nat) (s : String) : String := "".pushn ' ' (width - s.length) ++ s

/-- Fill up with blanks on the right. -/
def padRight (width : Nat) (s : String) : String := s.pushn ' ' (width - s.length)

/-! ### Reading -/

/-- The number of decimal digits, a point after some of them, and a power of ten, to the nearest double.  Far beyond
the range of doubles it is infinite or zero. -/
def decimalToFloat (digits : Nat) (exponent : Int) : Float :=
  let leading := exponent + Binary.digitCount digits
  if digits = 0 || leading < -400 then 0.0
  else if 400 < leading then 1.0 / 0.0
  else Float.ofScientific digits (exponent < 0) exponent.natAbs

/-- The value of a list of digits. -/
def digitsValue (cs : List Char) : Nat := cs.foldl (fun n c => 10 * n + (c.toNat - '0'.toNat)) 0

/-- The leading digits of a text, and the rest. -/
def spanDigits (cs : List Char) : List Char × List Char := cs.span Char.isDigit

/-- Read an exponent: digits with an optional sign. -/
def readExponent? (cs : List Char) : Option Int :=
  let (negative, ds) := match cs with
    | '-' :: ds => (true, ds)
    | '+' :: ds => (false, ds)
    | ds => (false, ds)
  if !ds.isEmpty && ds.all Char.isDigit then
    some (if negative then -(digitsValue ds : Int) else digitsValue ds)
  else none

/-- Read a magnitude: digits with an optional point among them and an optional exponent. -/
def readMagnitude? (cs : List Char) : Option Float := do
  let (whole, rest) := spanDigits cs
  let (places, rest) := match rest with
    | '.' :: rest => spanDigits rest
    | rest => ([], rest)
  guard !(whole.isEmpty && places.isEmpty)
  let exponent ← match rest with
    | [] => some 0
    | c :: rest => if c = 'e' || c = 'E' then readExponent? rest else none
  return decimalToFloat (digitsValue (whole ++ places)) (exponent - places.length)

/-- Read a number: a magnitude or the name of a special value, with an optional sign. -/
def readFloat? (s : String) : Option Float :=
  let (negative, cs) := match s.toList with
    | '-' :: cs => (true, cs)
    | '+' :: cs => (false, cs)
    | cs => (false, cs)
  let magnitude := match (String.ofList cs).toLower with
    | "inf" | "infinity" => some (1.0 / 0.0)
    | "nan" => some (0.0 / 0.0)
    | _ => readMagnitude? cs
  if negative then magnitude.map (-·) else magnitude

/-- Read a count: digits with an optional plus sign, within a machine word. -/
def readCount? (s : String) : Option Nat :=
  let ds := match s.toList with
    | '+' :: ds => ds
    | ds => ds
  let n := digitsValue ds
  if !ds.isEmpty && ds.all Char.isDigit && n < Nat.pow 2 64 then some n else none

end BlackOilWells
