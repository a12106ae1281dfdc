import BlackOilWells.Fluid.Cell
import BlackOilWells.Numeric.Stride
import BlackOilWells.Well.Unknowns

/-!
# The state of the flow

`FlowState` is what persists from step to step: pressures, rates, unknowns and current control of every well, pressure
and rates of every connection.  Rates are surface volumes per second; injection is positive and production negative.
Quantities by phase or unknown are flat lists in groups of three, one group after the other.

A caller may hand in lists of any length.  What the state holds for one well is its `Slot`, in which each quantity is
present or absent; reading or writing an absent one is an access past the end of an array.
-/

namespace BlackOilWells

/-- The flow in all wells. -/
structure FlowState (α : Type) where
  /-- The bottom-hole pressure of each well. -/
  bhp : List α
  /-- The tubing-head pressure of each well. -/
  thp : List α
  /-- The surface rates of each well, by phase. -/
  rates : List α
  /-- The unknowns of each well, in groups of three. -/
  unknowns : List α
  /-- The index of the current control of each well. -/
  control : List Nat
  /-- The well-bore pressure at each connection. -/
  connectionPressure : List α
  /-- The surface rates of each connection, by phase. -/
  connectionRates : List α
  /-- The potential rates of each connection, by phase. -/
  potentials : List α
  /-- How often a model has changed the state. -/
  revision : Nat

/-- What the state holds for one well. -/
structure Slot (α : Type) where
  /-- The bottom-hole pressure. -/
  bhp : Option α
  /-- The tubing-head pressure. -/
  thp : Option α
  /-- The surface rates. -/
  rates : Option (PerPhase α)
  unknowns : Option (Unknowns α)
  /-- The index of the current control. -/
  control : Option Nat

namespace Slot

variable {α : Type}

/-- Write the bottom-hole pressure. -/
def putBhp (x : α) : Attempt α (Slot α) Unit := do
  let _ ← Attempt.need (← get).bhp
  modify fun s => { s with bhp := some x }

/-- Write the tubing-head pressure. -/
def putThp (x : α) : Attempt α (Slot α) Unit := do
  let _ ← Attempt.need (← get).thp
  modify fun s => { s with thp := some x }

/-- Write the rates. -/
def putRates (q : PerPhase α) : Attempt α (Slot α) Unit := do
  let _ ← Attempt.need (← get).rates
  modify fun s => { s with rates := some q }

/-- Write the unknowns. -/
def putUnknowns (u : Unknowns α) : Attempt α (Slot α) Unit := do
  let _ ← Attempt.need (← get).unknowns
  modify fun s => { s with unknowns := some u }

/-- Write the index of the current control. -/
def putControl (i : Nat) : Attempt α (Slot α) Unit := do
  let _ ← Attempt.need (← get).control
  modify fun s => { s with control := some i }

/-- The current control of a well. -/
def currentControl (s : Slot α) (w : Well α) : Outcome α (Control α) := do w.controls.get (← Outcome.need s.control)

/-- Derive the unknowns of a well from its rates, its bottom-hole pressure and its current control. -/
def seed [Scalar α] (phases : PhaseSet) (w : Well α) : Attempt α (Slot α) Unit := do
  let s ← get
  let control ← s.currentControl w
  let rates ← Attempt.need s.rates
  putUnknowns (← w.encode phases control rates (Outcome.need s.bhp))

end Slot

namespace FlowState

variable {α : Type}

/-! ### The view of one well -/

/-- What the state holds for a well. -/
def slot (s : FlowState α) (w : Nat) : Slot α where
  bhp := s.bhp[w]?
  thp := s.thp[w]?
  rates := (Stride.get? s.rates w).map .ofVec
  unknowns := (Stride.get? s.unknowns w).map .ofVec
  control := s.control[w]?

/-- Write what a slot holds; what it does not hold stays. -/
def putSlot (s : FlowState α) (w : Nat) (t : Slot α) : FlowState α :=
  { s with
    bhp := t.bhp.elim s.bhp (s.bhp.set w)
    thp := t.thp.elim s.thp (s.thp.set w)
    rates := t.rates.elim s.rates fun q => Stride.set s.rates w q.toVec
    unknowns := t.unknowns.elim s.unknowns fun u => Stride.set s.unknowns w u.toVec
    control := t.control.elim s.control (s.control.set w) }

/-- An operation on what the state holds for one well. -/
def onSlot {β : Type} (w : Nat) (act : Attempt α (Slot α) β) : Attempt α (FlowState α) β :=
  Attempt.zoom (·.slot w) (·.putSlot w) act

/-! ### Connections -/

/-- The well-bore pressure at a connection. -/
def pressureAt (s : FlowState α) (i : Nat) : Outcome α α := Outcome.need s.connectionPressure[i]?

/-- The surface rates of a connection. -/
def ratesAt (s : FlowState α) (i : Nat) : Outcome α (PerPhase α) :=
  Outcome.need ((Stride.get? s.connectionRates i).map .ofVec)

/-- Write pressure and rates of a connection. -/
def putConnection (i : Nat) (pressure : α) (rates : PerPhase α) : Attempt α (FlowState α) Unit := do
  let s ← get
  let _ ← s.pressureAt i
  let _ ← s.ratesAt i
  set { s with
    connectionPressure := s.connectionPressure.set i pressure
    connectionRates := Stride.set s.connectionRates i rates.toVec }

/-- Write the potential rates of a connection. -/
def putPotential (i : Nat) (rates : PerPhase α) : Attempt α (FlowState α) Unit := do
  let s ← get
  let _ ← Attempt.need (Stride.get? s.potentials i)
  set { s with potentials := Stride.set s.potentials i rates.toVec }

/-- Count a change of the state. -/
def countChange : Attempt α (FlowState α) Unit := modify fun s => { s with revision := s.revision + 1 }

end FlowState

/-! ### The state to start from -/

/-- The start of one well. -/
structure WellStart (α : Type) where
  /-- The bottom-hole pressure. -/
  bhp : α
  /-- The tubing-head pressure. -/
  thp : α
  /-- The surface rates. -/
  rates : PerPhase α
  unknowns : Unknowns α
  /-- The index of the control. -/
  control : Nat
  /-- The pressure at each connection. -/
  pressures : List α
  /-- The rates of each connection. -/
  share : PerPhase α

namespace Well

variable {α : Type} [Scalar α]

/-- The rates to start from: the target of a surface rate control, and no flow under any other.  A producer splits the
target evenly over the weighted phases. -/
def startRates (w : Well α) (control : Control α) : PerPhase α :=
  match control.kind with
  | .surfaceRate =>
    if w.isInjector then w.composition.map (control.target * ·)
    else
      let weighted : α := ((max control.weighted.length 1 : Nat) : α)
      control.weights.map fun d => if 0 < d then control.target / (d * weighted) else 0
  | _ => .replicate 0

/-- The pressure of the cell of a connection. -/
def connectedPressure (w : Well α) (cells : List (Cell α)) (c : Connection α) : Outcome α α :=
  match cells[c.cell]? with
  | some cell => .ok cell.pressure.value
  | none => .error (.logic (.wellCellOutOfRange w.name c.cell cells.length))

/-- The start of a well.  The bottom-hole pressure is the target of a bottom-hole control and otherwise one per cent
off the pressure at the top connection, in the direction of the flow. -/
def start (w : Well α) (cells : List (Cell α)) (phases : PhaseSet) : Outcome α (WellStart α) := do
  let control ← w.controls.get w.controls.initial
  let pressures ← w.connections.mapM (w.connectedPressure cells)
  let top ← Outcome.need pressures.head?
  let bhp := match control.kind with
    | .bhp => control.target
    | _ => if w.isInjector then 1.01 * top else 0.99 * top
  let thp := match control.kind with
    | .thp _ _ => control.target
    | _ => 0
  let rates := w.startRates control
  let share : α := 1 / (w.connections.length : α)
  let unknowns ← w.encode phases control rates (.ok bhp)
  return ⟨bhp, thp, rates, unknowns, w.controls.initial, pressures, rates.map (· * share)⟩

end Well

namespace FlowState

variable {α : Type} [Scalar α]

/-- The state of given starts. -/
def ofStarts (starts : List (WellStart α)) : FlowState α where
  bhp := starts.map (·.bhp)
  thp := starts.map (·.thp)
  rates := starts.flatMap (·.rates.toList)
  unknowns := starts.flatMap (·.unknowns.toVec.toList)
  control := starts.map (·.control)
  connectionPressure := starts.flatMap (·.pressures)
  connectionRates := starts.flatMap fun t => t.pressures.flatMap fun _ => t.share.toList
  potentials := starts.flatMap fun t => t.pressures.flatMap fun _ => [0, 0, 0]
  revision := 0

/-- The state that wells start from over reservoir cells. -/
def init (wells : Wells α) (cells : List (Cell α)) (phases : PhaseSet) : Outcome α (FlowState α) := do
  return ofStarts (← wells.list.mapM (·.start cells phases))

end FlowState

end BlackOilWells
