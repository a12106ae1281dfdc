import BlackOilWells.Numeric.Scalar

/-!
# Differentiable values

A `Dual α n` is a value together with its partial derivatives in `n` directions.  Every closure relation of the well
model is written on such values, so the Jacobian of the well equations comes out of the arithmetic.

Sums, products and quotients follow the usual rules; a unary function multiplies the partial derivatives by its slope
(`chain`).  A scalar may stand on either side of an operation.  `min`, `max` and `abs` choose by value and carry the
derivatives of the operand they choose.

The sum, difference, product and quotient can also be taken of a stored value in place (`addAssign` and so on).
-/

namespace BlackOilWells

/-- A value with its partial derivatives in `n` directions. -/
structure Dual (α : Type) (n : Nat) where
  value : α
  /-- The partial derivative in each direction. -/
  partials : Vector α n

namespace Dual

variable {α : Type} {n : Nat}

/-! ### Construction -/

/-- A constant: all derivatives are zero. -/
def const [Scalar α] (x : α) : Dual α n := ⟨x, Vector.replicate n 0⟩

/-- An independent variable, seeded in one direction. -/
def seed [Scalar α] (x : α) (slot : Fin n) : Dual α n := ⟨x, Vector.ofFn fun i => if i = slot then 1 else 0⟩

/-- The value without its derivatives. -/
def detach [Scalar α] (d : Dual α n) : Dual α n := const d.value

/-- The same derivatives at another value. -/
def withValue (d : Dual α n) (x : α) : Dual α n := ⟨x, d.partials⟩

instance [Scalar α] : Zero (Dual α n) := ⟨const 0⟩

/-! ### Tests -/

/-- Whether the value and all derivatives are finite. -/
def isFinite [Scalar α] (d : Dual α n) : Bool := Scalar.isFinite d.value && d.partials.all Scalar.isFinite

instance [Scalar α] : BEq (Dual α n) where
  beq d e := d.value == e.value && (Vector.zipWith (· == ·) d.partials e.partials).all id

/-! ### Arithmetic -/

/-- A unary function with value `x` and slope `slope` at `d`. -/
def chain [Scalar α] (d : Dual α n) (x slope : α) : Dual α n := ⟨x, d.partials.map (· * slope)⟩

instance [Scalar α] : Neg (Dual α n) where
  neg d := d.chain (-d.value) (-1)

instance [Scalar α] : Add (Dual α n) where
  add d e := ⟨d.value + e.value, Vector.zipWith (· + ·) d.partials e.partials⟩

instance [Scalar α] : Sub (Dual α n) where
  sub d e := ⟨d.value - e.value, Vector.zipWith (· - ·) d.partials e.partials⟩

instance [Scalar α] : Mul (Dual α n) where
  mul d e := ⟨d.value * e.value, Vector.zipWith (fun a b => a * e.value + d.value * b) d.partials e.partials⟩

instance [Scalar α] : Div (Dual α n) where
  div d e :=
    let inv := 1 / e.value
    ⟨d.value * inv, Vector.zipWith (fun a b => (a * e.value - d.value * b) * inv * inv) d.partials e.partials⟩

/-! ### A scalar on one side -/

instance [Scalar α] : HAdd (Dual α n) α (Dual α n) where
  hAdd d x := ⟨d.value + x, d.partials⟩

instance [Scalar α] : HSub (Dual α n) α (Dual α n) where
  hSub d x := ⟨d.value - x, d.partials⟩

instance [Scalar α] : HMul (Dual α n) α (Dual α n) where
  hMul d x := d.chain (d.value * x) x

instance [Scalar α] : HDiv (Dual α n) α (Dual α n) where
  hDiv d x := d.chain (d.value / x) (1 / x)

instance [Scalar α] : HAdd α (Dual α n) (Dual α n) where
  hAdd x d := d + x

instance [Scalar α] : HSub α (Dual α n) (Dual α n) where
  hSub x d := -d + x

instance [Scalar α] : HMul α (Dual α n) (Dual α n) where
  hMul x d := d * x

instance [Scalar α] : HDiv α (Dual α n) (Dual α n) where
  hDiv x d := const x / d

/-! ### Updates in place

A stored value is changed one field after the other.  In a product and a quotient the value comes last: the new
derivatives are formed from the old value. -/

/-- Add to a stored value. -/
def addAssign [Scalar α] (e : Dual α n) : StateM (Dual α n) Unit := do
  modify fun d => { d with value := d.value + e.value }
  modify fun d => { d with partials := Vector.zipWith (· + ·) d.partials e.partials }

/-- Subtract from a stored value. -/
def subAssign [Scalar α] (e : Dual α n) : StateM (Dual α n) Unit := do
  modify fun d => { d with value := d.value - e.value }
  modify fun d => { d with partials := Vector.zipWith (· - ·) d.partials e.partials }

/-- Multiply a stored value. -/
def mulAssign [Scalar α] (e : Dual α n) : StateM (Dual α n) Unit := do
  modify fun d =>
    { d with partials := Vector.zipWith (fun a b => a * e.value + d.value * b) d.partials e.partials }
  modify fun d => { d with value := d.value * e.value }

/-- Divide a stored value. -/
def divAssign [Scalar α] (e : Dual α n) : StateM (Dual α n) Unit := do
  let inv := 1 / e.value
  modify fun d =>
    { d with partials := Vector.zipWith (fun a b => (a * e.value - d.value * b) * inv * inv) d.partials e.partials }
  modify fun d => { d with value := d.value * inv }

/-- Add a scalar to a stored value. -/
def addAssignScalar [Scalar α] (x : α) : StateM (Dual α n) Unit :=
  modify fun d => { d with value := d.value + x }

/-- Subtract a scalar from a stored value. -/
def subAssignScalar [Scalar α] (x : α) : StateM (Dual α n) Unit :=
  modify fun d => { d with value := d.value - x }

/-- Multiply a stored value by a scalar. -/
def mulAssignScalar [Scalar α] (x : α) : StateM (Dual α n) Unit :=
  modify fun d : Dual α n => d * x

/-! ### Functions -/

/-- The magnitude; the derivatives change sign where the value is negative. -/
def abs [Scalar α] (d : Dual α n) : Dual α n := if d.value < 0 then -d else d

/-- The operand of smaller value; a tie keeps the first. -/
def min [Scalar α] (d e : Dual α n) : Dual α n := if e.value < d.value then e else d

/-- The operand of larger value; a tie keeps the first. -/
def max [Scalar α] (d e : Dual α n) : Dual α n := if d.value < e.value then e else d

/-- The power with a machine-word exponent.  The exponent of the slope wraps around below the least exponent. -/
def pow [Scalar α] (d : Dual α n) (k : Int32) : Dual α n :=
  let slope := if k = 0 then 0 else Scalar.ofInt k.toInt * Scalar.powInt d.value (k - 1).toInt
  d.chain (Scalar.powInt d.value k.toInt) slope

/-- The square root. -/
def sqrt [ElementaryScalar α] (d : Dual α n) : Dual α n :=
  let root := ElementaryScalar.sqrt d.value
  d.chain root (0.5 / root)

/-- The exponential. -/
def exp [ElementaryScalar α] (d : Dual α n) : Dual α n :=
  let e := ElementaryScalar.exp d.value
  d.chain e e

end Dual

end BlackOilWells
