import BlackOilWells.Well.Error

/-!
# Well controls

A well carries an ordered list of constraints.  One of them is the current control; the others act as limits that may
trigger a switch.  Pressure constraints bound the bottom-hole or tubing-head pressure, rate constraints a weighted sum
of rates.  Rates carry the sign of the flow: injection is positive and production negative, so an injector must not
exceed its limits and a producer must not fall below them.
-/

namespace BlackOilWells

/-- Whether a well injects or produces. -/
inductive WellType where
  | injector
  | producer
deriving DecidableEq, Repr

/-- The quantity that a constraint bounds. -/
inductive ControlKind (α : Type) where
  /-- The bottom-hole pressure. -/
  | bhp
  /-- The tubing-head pressure, through a lift table at an artificial lift quantity. -/
  | thp (table : Nat) (lift : α)
  /-- A weighted sum of surface rates. -/
  | surfaceRate
  /-- A weighted sum of rates at reservoir conditions. -/
  | reservoirRate
deriving Repr

namespace ControlKind

variable {α : Type}

/-- The name under which the kind is reported. -/
def name : ControlKind α → String
  | .bhp => "BHP"
  | .thp _ _ => "THP"
  | .surfaceRate => "SURFACE_RATE"
  | .reservoirRate => "RESERVOIR_RATE"

/-- Whether the constraint bounds a pressure. -/
def isPressure : ControlKind α → Bool
  | .bhp | .thp _ _ => true
  | .surfaceRate | .reservoirRate => false

/-- The table and lift quantity of a tubing-head constraint. -/
def lift? : ControlKind α → Option (Nat × α)
  | .thp table lift => some (table, lift)
  | _ => none

end ControlKind

/-- One constraint of a well. -/
structure Control (α : Type) where
  /-- The bounded quantity. -/
  kind : ControlKind α
  /-- The bound. -/
  target : α
  /-- The weights of the phases in a rate constraint; for a reservoir rate they are voidage coefficients. -/
  weights : PerPhase α
deriving Repr

namespace Control

variable {α : Type} [Scalar α]

/-- The weighted rate that a rate constraint compares with its target. -/
def weightedRate (c : Control α) (rates : PerPhase α) : α := c.weights.weightedSum rates

/-- The scaling of the phase fractions under this control.  Gas counts a hundredth of its surface volume. -/
def fractionScale (c : Control α) : PerPhase α :=
  match c.kind with
  | .reservoirRate => c.weights
  | _ => ⟨1, 1, 0.01⟩

/-- The phases with a positive weight. -/
def weighted (c : Control α) : List Phase := Phase.all.filter fun p => decide (0 < c.weights.get p)

/-- Whether the constraint is violated at pressures and rates. -/
def isBroken (c : Control α) (type : WellType) (bhp thp : α) (rates : PerPhase α) : Bool :=
  let value := match c.kind with
    | .bhp => bhp
    | .thp _ _ => thp
    | .surfaceRate | .reservoirRate => c.weightedRate rates
  match type with
  | .injector => decide (c.target < value)
  | .producer => decide (value < c.target)

end Control

/-- The constraints of a well in order, and the control that a fresh state starts from. -/
structure Controls (α : Type) where
  /-- The constraints. -/
  list : List (Control α)
  /-- The index of the control to start from. -/
  initial : Nat
deriving Repr

namespace Controls

variable {α : Type}

/-- Accept constraints with finite targets and with weights that are finite and not negative. -/
def create [Scalar α] (list : List (Control α)) (initial : Nat) : Outcome α (Controls α) := do
  if list.isEmpty then throw (.invalid .noControls)
  if list.length ≤ initial then throw (.invalid (.initialOutOfRange initial list.length))
  list.forM fun c => do
    if ¬Scalar.isFinite c.target then throw (.invalid .targetNotFinite)
    if c.weights.toList.any fun d => decide (d < 0) || !Scalar.isFinite d then throw (.invalid .negativeWeight)
  return ⟨list, initial⟩

/-- The constraint of an index. -/
def get (cs : Controls α) (i : Nat) : Outcome α (Control α) :=
  match cs.list[i]? with
  | some c => .ok c
  | none => .error (.logic (.controlOutOfRange i cs.list.length))

/-- Replace the target of a constraint. -/
def setTarget (cs : Controls α) (i : Nat) (target : α) : Outcome α (Controls α) :=
  match cs.list[i]? with
  | some c => .ok { cs with list := cs.list.set i { c with target := target } }
  | none => .error (.logic (.controlOutOfRange i cs.list.length))

/-- The index of the first constraint of a kind. -/
def find (cs : Controls α) (p : ControlKind α → Bool) : Option Nat := cs.list.findIdx? fun c => p c.kind

/-- The table and lift quantity of the first tubing-head constraint. -/
def firstLift? (cs : Controls α) : Option (Nat × α) := cs.list.findSome? fun c => c.kind.lift?

end Controls

end BlackOilWells
