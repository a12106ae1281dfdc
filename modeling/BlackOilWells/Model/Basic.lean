import BlackOilWells.Fluid.Voidage
import BlackOilWells.Model.Settings
import BlackOilWells.Well.Hydrostatics
import BlackOilWells.Well.Lift
import BlackOilWells.Well.System

/-!
# The well model

A `Model` is a list of wells, each with what the model keeps for it (`WellUnit`): differentiable unknowns, the segments
of its well bore, its linear system and the terms it adds to the reservoir equations.  What the wells share is the
`Setup`.  A unit never looks at another one.

The functions here prepare units for an assembly from a flow state.
-/

namespace BlackOilWells

/-- What the wells of a model share. -/
structure Setup (α : Type) where
  /-- The active phases. -/
  phases : PhaseSet
  settings : Settings α
  /-- The fluid model. -/
  pvt : PvtModel α
  lift : LiftTables α
  /-- The source of voidage coefficients, if there is one. -/
  converter : Option (RateConverter α)

/-- The segment of the well bore above a connection, and how much of the flow through the connection counts. -/
structure Segment (α : Type) where
  /-- The density of the fluid. -/
  density : α
  /-- The pressure difference from the reference depth to the connection. -/
  head : α
  /-- The efficiency of the connection. -/
  efficiency : α
deriving Repr

/-- What a connection adds to the equations of its cell. -/
structure Source (α : Type) where
  cell : Nat
  /-- The addition to the residual. -/
  residual : Vec3 α
  /-- The addition to the derivatives by the unknowns of the cell. -/
  jacobian : Block α

/-- One well of a model. -/
structure WellUnit (α : Type) where
  well : Well α
  /-- The unknowns, each seeded in its direction. -/
  unknowns : Unknowns (WellDual α)
  /-- The volume fractions of the well stream at the start of the time step. -/
  startFractions : PerPhase α
  /-- The segments in the order of the connections. -/
  segments : List (Segment α)
  /-- The linear system. -/
  system : WellSystem α
  /-- The additions to the reservoir equations of the last assembly. -/
  sources : List (Source α)

/-- Wells coupled implicitly to a reservoir. -/
structure Model (α : Type) where
  /-- What the wells share. -/
  setup : Setup α
  /-- The wells in order. -/
  units : List (WellUnit α)

variable {α : Type} [Scalar α]

namespace WellUnit

/-- A well before any assembly. -/
def create (w : Well α) : WellUnit α where
  well := w
  unknowns := ⟨0, 0, 0⟩
  startFractions := .replicate 0
  segments := w.connections.map fun c => ⟨0, 0, c.efficiency⟩
  system := .empty w.cells
  sources := []

/-- The unknowns as independent variables. -/
def seeded (u : Unknowns α) : Unknowns (WellDual α) := ⟨.seedWell u.lead 0, .seedWell u.water 1, .seedWell u.gas 2⟩

/-- Take the unknowns from a state. -/
def setUnknowns (u : WellUnit α) (s : Slot α) : Outcome α (WellUnit α) := do
  return { u with unknowns := seeded (← Outcome.need s.unknowns) }

/-- The volume fraction of a phase in the well stream; oil closes the sum. -/
def fraction (u : WellUnit α) (phases : PhaseSet) : Phase → WellDual α
  | .water => u.unknowns.water
  | .oil =>
    let rest : WellDual α := .const 1
    let rest := if phases.water then rest - u.unknowns.water else rest
    if phases.gas then rest - u.unknowns.gas else rest
  | .gas => u.unknowns.gas

/-- The volume fractions of the active phases. -/
def mix (u : WellUnit α) (phases : PhaseSet) : PerPhase (WellDual α) :=
  phases.select (.ofFn (u.fraction phases)) (.replicate 0)

/-- Note the fractions as those at the start of the time step. -/
def setStartFractions (u : WellUnit α) (phases : PhaseSet) : WellUnit α :=
  { u with startFractions := .ofFn fun p => (u.fraction phases p).value }

/-- Combine the efficiencies of the connections with a factor of the well. -/
def setEfficiency (u : WellUnit α) (factor : α) : WellUnit α :=
  { u with
    segments := List.zipWith (fun c s => { s with efficiency := c.efficiency * factor }) u.well.connections u.segments }

/-- Take the densities of the segments. -/
def setDensities (u : WellUnit α) (gravity : α) (densities : List α) : WellUnit α :=
  { u with
    segments := List.zipWith (fun s (density, head) => { s with density, head }) u.segments
      (densities.zip (u.well.heads gravity densities)) }

end WellUnit

namespace Model

/-- Accept wells whose lift tables exist and settings that permit a solution. -/
def create (wells : Wells α) (setup : Setup α) : Outcome α (Model α) := do
  wells.list.forM fun w => w.controls.list.forM fun c =>
    match c.kind.lift? with
    | some (table, _) =>
      if setup.lift.contains table then pure () else throw (.invalid (.liftTableMissing w.name table))
    | none => pure ()
  if setup.settings.maxLocalIterations = 0 then throw (.invalid .noIterations)
  if ¬(0 < setup.settings.tolerance ∧ 0 < setup.settings.storageVolume) then
    throw (.invalid .toleranceNotPositive)
  return ⟨setup, wells.list.map .create⟩

omit [Scalar α] in
/-- The wells. -/
def wells (m : Model α) : Wells α := ⟨m.units.map (·.well)⟩

omit [Scalar α] in
/-- The units with their places. -/
def placed (m : Model α) : List (Placed (WellUnit α)) := Placed.ofList (·.well.connections.length) m.units

omit [Scalar α] in
/-- The unit of a well. -/
def unit (m : Model α) (w : Nat) : Outcome α (WellUnit α) :=
  match m.units[w]? with
  | some u => .ok u
  | none => .error (.logic (.wellOutOfRange w))

omit [Scalar α] in
/-- Refuse a state of another number of wells or connections. -/
def checkState (m : Model α) (s : FlowState α) : Outcome α Unit :=
  if s.bhp.length = m.units.length ∧ s.connectionPressure.length = m.wells.numConnections then .ok ()
  else .error (.logic (.stateSize s.bhp.length s.connectionPressure.length m.units.length m.wells.numConnections))

/-- Take the unknowns of all wells from a state. -/
def setUnknowns (m : Model α) (s : FlowState α) : Outcome α (Model α) := do
  return { m with units := ← m.units.zipIdx.mapM fun (u, w) => u.setUnknowns (s.slot w) }

/-- Note the fractions of all wells as those at the start of the time step. -/
def setStartFractions (m : Model α) : Model α :=
  { m with units := m.units.map (·.setStartFractions m.setup.phases) }

/-- Combine the efficiencies of all connections with the factors of the wells. -/
def setEfficiencies (m : Model α) (factor : String → α) : Model α :=
  { m with units := m.units.map fun u => u.setEfficiency (factor u.well.name) }

/-- Refresh densities and pressure differences of all wells from a state. -/
def setDensities (m : Model α) (cells : List (Cell α)) (s : FlowState α) : Outcome α (Model α) := do
  let props ← ConnectionProperties.ofFlow m.wells s cells m.setup.phases m.setup.pvt
  let densities ← m.wells.placed.mapM fun w => Well.densities w s m.setup.phases props
  return { m with units := List.zipWith (·.setDensities m.setup.settings.gravity ·) m.units densities }

/-- Replace the target of a control of a well. -/
def setTarget (m : Model α) (w control : Nat) (target : α) : Outcome α (Model α) := do
  let u ← m.unit w
  let controls ← u.well.controls.setTarget control target
  return { m with units := m.units.set w { u with well := { u.well with controls := controls } } }

end Model

end BlackOilWells
