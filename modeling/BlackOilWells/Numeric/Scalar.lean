/-!
# Scalars

The numbers that every quantity of the well model is made of.  `Scalar` collects the operations the well equations
use and asks for no laws, so that one set of definitions runs on binary doubles and is read over an ordered field in
the proofs.  Comparisons are decidable propositions; `==` is the equality the equations test with, which for doubles
is not reflexive.

The functions below fix the conventions that every module shares: where a sum starts, which operand a minimum keeps,
how an integer power is formed and how a Newton step is bounded.
-/

namespace BlackOilWells

/-- Numbers with the operations of the well equations. -/
class Scalar (α : Type) extends Zero α, One α, Add α, Sub α, Mul α, Div α, Neg α, NatCast α, OfScientific α,
    LT α, LE α, BEq α where
  /-- The order is decidable. -/
  decLT : DecidableLT α
  /-- The non-strict order is decidable. -/
  decLE : DecidableLE α
  /-- The magnitude, which is never a negative zero. -/
  abs : α → α
  /-- Whether the value is not a number. -/
  isNaN : α → Bool
  /-- Whether the value is neither infinite nor not a number. -/
  isFinite : α → Bool

attribute [reducible, instance] Scalar.decLT Scalar.decLE

/-- Scalars with the two elementary functions that differentiable values offer beside the arithmetic. -/
class ElementaryScalar (α : Type) extends Scalar α where
  /-- The square root. -/
  sqrt : α → α
  /-- The exponential. -/
  exp : α → α

namespace Scalar

variable {α : Type} [Scalar α]

/-- The sum of a list, added from the left.  It starts at negative zero, the neutral element of addition: `-0 + x`
is `x` also when `x` is a negative zero. -/
def sum (xs : List α) : α := xs.foldl (· + ·) (-0)

/-- The smaller of two values; an operand that is not a number is ignored and a tie keeps the first. -/
def min (x y : α) : α := if isNaN x then y else if y < x then y else x

/-- The larger of two values; an operand that is not a number is ignored and a tie keeps the first. -/
def max (x y : α) : α := if isNaN x then y else if x < y then y else x

/-- An integer as a scalar. -/
def ofInt (n : Int) : α := if n < 0 then -(n.natAbs : α) else (n.natAbs : α)

/-- `r * x ^ n` by repeated squaring. -/
def powNat (x r : α) (n : Nat) : α :=
  let r := if n % 2 = 1 then r * x else r
  if h : n / 2 = 0 then r else powNat (x * x) r (n / 2)
termination_by n
decreasing_by omega

/-- The power with an integer exponent: repeated squaring, and one reciprocal at the end if the exponent is
negative. -/
def powInt (x : α) (n : Int) : α :=
  if n < 0 then 1 / powNat x 1 n.natAbs else powNat x 1 n.natAbs

/-- The direction of a Newton step: `1` for a positive step and `-1` for any other. -/
def stepSign (x : α) : α := if 0 < x then 1 else -1

/-- A Newton step with its magnitude bounded by `most`. -/
def boundedStep (step most : α) : α := stepSign step * min (abs step) most

end Scalar

end BlackOilWells
