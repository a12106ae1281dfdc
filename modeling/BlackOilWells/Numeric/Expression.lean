import BlackOilWells.Numeric.Dual

/-!
# Expressions

What can be written in the arithmetic of differentiable values: an `Expression α ι` is a tree over constants and over
leaves named by `ι`.  An operation has a differentiable value on both sides or a scalar on one side, and it either gives
a new value or updates a stored one in place.  `Expression.eval` computes the tree from the values of its leaves.
-/

namespace BlackOilWells

/-- The operations of arithmetic. -/
inductive Operator where
  | add
  | sub
  | mul
  | div
  deriving DecidableEq, Repr

/-- The operations by which a scalar can update a stored value. -/
inductive ScalarUpdate where
  | add
  | sub
  | mul
  deriving DecidableEq, Repr

variable {α ι : Type} {n : Nat}

namespace Operator

/-- The operation on two operands. -/
def apply {β γ δ : Type} [HAdd β γ δ] [HSub β γ δ] [HMul β γ δ] [HDiv β γ δ] (op : Operator) (x : β) (y : γ) : δ :=
  match op with
  | add => x + y
  | sub => x - y
  | mul => x * y
  | div => x / y

/-- The update of a stored value by another one. -/
def assign [Scalar α] (op : Operator) (e : Dual α n) : StateM (Dual α n) Unit :=
  match op with
  | add => Dual.addAssign e
  | sub => Dual.subAssign e
  | mul => Dual.mulAssign e
  | div => Dual.divAssign e

end Operator

namespace ScalarUpdate

/-- The operation of an update. -/
def operator : ScalarUpdate → Operator
  | add => .add
  | sub => .sub
  | mul => .mul

/-- The update of a stored value by a scalar. -/
def assign [Scalar α] (op : ScalarUpdate) (x : α) : StateM (Dual α n) Unit :=
  match op with
  | add => Dual.addAssignScalar x
  | sub => Dual.subAssignScalar x
  | mul => Dual.mulAssignScalar x

end ScalarUpdate

/-- The expressions over leaves named by `ι`. -/
inductive Expression (α ι : Type) where
  | leaf (i : ι)
  | const (x : α)
  | neg (a : Expression α ι)
  | abs (a : Expression α ι)
  | sqrt (a : Expression α ι)
  | exp (a : Expression α ι)
  | pow (a : Expression α ι) (k : Int32)
  | min (a b : Expression α ι)
  | max (a b : Expression α ι)
  | binary (op : Operator) (a b : Expression α ι)
  | scalarRight (op : Operator) (a : Expression α ι) (x : α)
  | scalarLeft (op : Operator) (x : α) (a : Expression α ι)
  /-- The value of `a` after an update by `b`. -/
  | update (op : Operator) (a b : Expression α ι)
  /-- The value of `a` after an update by a scalar. -/
  | updateScalar (op : ScalarUpdate) (a : Expression α ι) (x : α)

namespace Expression

/-- The differentiable value of an expression. -/
def eval [ElementaryScalar α] (ρ : ι → Dual α n) : Expression α ι → Dual α n
  | leaf i => ρ i
  | const x => .const x
  | neg a => -a.eval ρ
  | abs a => (a.eval ρ).abs
  | sqrt a => (a.eval ρ).sqrt
  | exp a => (a.eval ρ).exp
  | pow a k => (a.eval ρ).pow k
  | min a b => (a.eval ρ).min (b.eval ρ)
  | max a b => (a.eval ρ).max (b.eval ρ)
  | binary op a b => op.apply (a.eval ρ) (b.eval ρ)
  | scalarRight op a x => op.apply (a.eval ρ) x
  | scalarLeft op x a => op.apply x (a.eval ρ)
  | update op a b => ((op.assign (b.eval ρ)).run (a.eval ρ)).2
  | updateScalar op a x => ((op.assign x).run (a.eval ρ)).2

end Expression

end BlackOilWells
