import BlackOilWells.Numeric.Coupled
import BlackOilWells.Well.Error

/-!
# Lift tables

A lift table relates the bottom-hole pressure at a datum depth to the tubing-head pressure and the flow of a well.  It
is bilinear between its nodes and extends linearly beyond them; the artificial lift quantity is not tabulated.
`LiftTable.bhp` reads the table forwards, differentiable in the rates, and `LiftTable.thp` inverts it.
-/

namespace BlackOilWells

/-- The rate that a lift table is tabulated against. -/
inductive FlowKind where
  | oil
  | liquid
  | gas
deriving DecidableEq, Repr

/-- The magnitude of the tabulated rate. -/
def FlowKind.flow {α : Type} [Scalar α] (k : FlowKind) (rates : PerPhase (WellDual α)) : WellDual α :=
  match k with
  | .oil => rates.oil.abs
  | .liquid => (rates.oil + rates.water).abs
  | .gas => rates.gas.abs

/-! ### Axes -/

namespace Axis

variable {α : Type} [Scalar α]

/-- Whether each entry is smaller than the next. -/
def isIncreasing : List α → Bool
  | a :: b :: l => decide (a < b) && isIncreasing (b :: l)
  | _ => true

/-- The index of the lower node of the interval that serves a coordinate: the last node not above it, but never the
last node of the axis. -/
def lowerNode (axis : List α) (x : α) : Nat :=
  min ((axis.takeWhile fun a => decide (a ≤ x)).length - 1) (axis.length - 2)

/-- The position of a coordinate in the interval above a node, in units of the interval.  Outside of the interval it
is not between zero and one, and without an interval it is zero. -/
def weight (axis : List α) (i : Nat) (x : α) : α :=
  match axis[i]?, axis[i + 1]? with
  | some a, some b => (x - a) / (b - a)
  | _, _ => 0

/-- The value at a position in the interval above a node. -/
def valueAt (values : List α) (i : Nat) (s : α) : Outcome α α := do
  let lo ← Outcome.need values[i]?
  return lo + (values[i + 1]?.getD lo - lo) * s

end Axis

/-! ### Tables -/

/-- Bottom-hole pressures on a grid of flows and tubing-head pressures. -/
structure LiftTable (α : Type) where
  /-- The number of the table. -/
  id : Nat
  /-- The depth of the bottom-hole pressures. -/
  datumDepth : α
  /-- The rate on the flow axis. -/
  flowKind : FlowKind
  /-- The nodes of the flow axis. -/
  flowNodes : List α
  /-- The nodes of the tubing-head pressure axis. -/
  thpNodes : List α
  /-- The bottom-hole pressures: one row for each flow. -/
  grid : List (List α)
deriving Repr

namespace LiftTable

variable {α : Type} [Scalar α]

/-- Accept a table whose axes increase, whose grid fits them and whose rows increase. -/
def validate (t : LiftTable α) : Outcome α Unit := do
  if t.flowNodes.isEmpty || t.thpNodes.isEmpty then throw (.invalid (.emptyAxis t.id))
  if ¬(Axis.isIncreasing t.flowNodes && Axis.isIncreasing t.thpNodes) then
    throw (.invalid (.axisNotIncreasing t.id))
  if t.grid.length != t.flowNodes.length || t.grid.any (·.length != t.thpNodes.length) then
    throw (.invalid (.gridMismatch t.id))
  if ¬t.grid.all Axis.isIncreasing then throw (.invalid (.gridNotIncreasing t.id))

/-- The bottom-hole pressure at rates and a tubing-head pressure. -/
def bhp (t : LiftTable α) (rates : PerPhase (WellDual α)) (thp : α) : Outcome α (WellDual α) := do
  let flow := t.flowKind.flow rates
  let j := Axis.lowerNode t.thpNodes thp
  let s := Axis.weight t.thpNodes j thp
  let i := Axis.lowerNode t.flowNodes flow.value
  let low ← Axis.valueAt (← Outcome.need t.grid[i]?) j s
  let result ← match t.flowNodes[i]?, t.flowNodes[i + 1]?, t.grid[i + 1]? with
    | some f, some g, some row => do
      let high ← Axis.valueAt row j s
      pure ((flow - f) / (g - f) * (high - low) + low)
    | _, _, _ => pure (.const low)
  if result.isFinite then return result
  throw (.numerical (.liftNotFinite t.id))

/-- The bottom-hole pressures at a flow, one for each tubing-head pressure of the axis. -/
def column (t : LiftTable α) (flow : α) : Outcome α (List α) := do
  let i := Axis.lowerNode t.flowNodes flow
  let s := Axis.weight t.flowNodes i flow
  let low ← Outcome.need t.grid[i]?
  return List.zipWith (fun lo hi => lo + (hi - lo) * s) low (t.grid[i + 1]?.getD low)

/-- The tubing-head pressure that gives a bottom-hole pressure at rates. -/
def thp (t : LiftTable α) (rates : PerPhase α) (bhp : α) : Outcome α α := do
  let flow := (t.flowKind.flow (rates.map .const)).value
  let column ← t.column flow
  if ¬Axis.isIncreasing column then throw (.numerical (.liftNotInvertible t.id flow))
  let j := Axis.lowerNode column bhp
  let thp ← match t.thpNodes[j + 1]? with
    | some _ => Axis.valueAt t.thpNodes j (Axis.weight column j bhp)
    | none => Outcome.need t.thpNodes[j]?
  Outcome.finite thp "tubing head pressure"

/-- The pressure difference between a reference depth and the datum depth in a column of a given density. -/
def correction (t : LiftTable α) (refDepth density gravity : α) : α := (refDepth - t.datumDepth) * density * gravity

end LiftTable

/-- The lift tables of a model, at most one of each number. -/
structure LiftTables (α : Type) where
  list : List (LiftTable α)
deriving Repr

namespace LiftTables

variable {α : Type}

/-- No tables. -/
def empty : LiftTables α := ⟨[]⟩

/-- Add a table; it replaces one of the same number. -/
def insert (ts : LiftTables α) (t : LiftTable α) : LiftTables α := ⟨t :: ts.list.filter (·.id != t.id)⟩

/-- Whether there is a table of a number. -/
def contains (ts : LiftTables α) (id : Nat) : Bool := ts.list.any (·.id == id)

/-- The table of a number. -/
def get (ts : LiftTables α) (id : Nat) : Outcome α (LiftTable α) :=
  match ts.list.find? (·.id == id) with
  | some t => .ok t
  | none => .error (.logic (.tableMissing id))

end LiftTables

end BlackOilWells
