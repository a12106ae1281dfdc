import BlackOilWells.Model.Basic
import BlackOilWells.Well.Inflow

/-!
# Closure relations of a well

The relations that close the well equations under a control: the surface rate of each phase (`surfaceRate`), the
bottom-hole pressure (`bottomHole`), and the flows through the connections (`connectionFlows`).  All are differentiable
in the unknowns of the well and of the connected cells.
-/

namespace BlackOilWells

variable {α : Type} [Scalar α]

omit [Scalar α] in
/-- A cell of the reservoir state. -/
def cellAt (cells : List (Cell α)) (cell : Nat) : Outcome α (Cell α) :=
  match cells[cell]? with
  | some c => .ok c
  | none => .error (.logic (.cellOutOfRange cell cells.length))

/-- The flow through one connection. -/
structure ConnectionFlow (α : Type) where
  cell : Nat
  /-- The efficiency of the connection. -/
  efficiency : α
  /-- The pressure in the well bore. -/
  pressure : α
  /-- The surface rates. -/
  flux : PerPhase (WellDual α)

namespace WellUnit

/-! ### Rates -/

/-- The fraction of a phase in units of the scaling of a control; zero where the scaling is zero. -/
def scaledFraction (u : WellUnit α) (phases : PhaseSet) (control : Control α) (p : Phase) : WellDual α :=
  let scale := control.fractionScale.get p
  if scale == 0 then 0 else u.fraction phases p / scale

/-- The rate of a phase in the stream in which the given phases together flow at a target rate; zero if these phases
are missing from the stream. -/
def rateAtTarget (u : WellUnit α) (phases : PhaseSet) (control : Control α) (p : Phase) (part : WellDual α)
    (present : Bool) : WellDual α :=
  if present then u.scaledFraction phases control p * control.target / part else 0

/-- The rate of a phase under a surface rate control.  A single weighted phase flows at the target, and the others in
proportion. -/
def ratedProduction (u : WellUnit α) (phases : PhaseSet) (control : Control α) (p : Phase) : WellDual α :=
  let scaled := u.scaledFraction phases control
  match phases.active.filter fun q => decide (0 < control.weights.get q) with
  | [controlled] =>
    if controlled = p then .const control.target
    else u.rateAtTarget phases control p (scaled controlled) !(decide ((scaled controlled).value < 1e-6))
  | weighted =>
    let part := (weighted.map scaled).foldl (· + ·) 0
    u.rateAtTarget phases control p part !(decide (Scalar.abs part.value < 1e-6))

/-- The surface rate of a phase under a control. -/
def surfaceRate (u : WellUnit α) (phases : PhaseSet) (control : Control α) (p : Phase) : WellDual α :=
  if u.well.isInjector then
    if u.well.composition.get p == 0 then 0
    else if control.kind.isPressure then u.unknowns.lead else .const control.target
  else match control.kind with
    | .bhp | .thp _ _ => u.unknowns.lead * u.scaledFraction phases control p
    | .surfaceRate => u.ratedProduction phases control p
    | .reservoirRate => u.scaledFraction phases control p * control.target

/-! ### Pressures -/

/-- The pressure difference between the reference depth of the well and the datum depth of a lift table. -/
def liftCorrection (u : WellUnit α) (setup : Setup α) (t : LiftTable α) : α :=
  t.correction u.well.refDepth ((u.segments.head?.map (·.density)).getD 0) setup.settings.gravity

/-- The bottom-hole pressure that goes with a tubing-head pressure at rates. -/
def bhpOfThp (u : WellUnit α) (setup : Setup α) (table : Nat) (rates : PerPhase (WellDual α)) (thp : α) :
    Outcome α (WellDual α) := do
  let t ← setup.lift.get table
  return (← t.bhp rates thp) - u.liftCorrection setup t

/-- The tubing-head pressure that goes with a bottom-hole pressure at rates. -/
def thpOfBhp (u : WellUnit α) (setup : Setup α) (table : Nat) (rates : PerPhase α) (bhp : α) : Outcome α α := do
  let t ← setup.lift.get table
  t.thp rates (bhp + u.liftCorrection setup t)

/-- The bottom-hole pressure under a control. -/
def bottomHole (u : WellUnit α) (setup : Setup α) (control : Control α) : Outcome α (WellDual α) :=
  match control.kind with
  | .bhp => .ok (.const control.target)
  | .thp table _ =>
    let rates := setup.phases.select (.ofFn (u.surfaceRate setup.phases control)) (.replicate 0)
    u.bhpOfThp setup table rates control.target
  | .surfaceRate | .reservoirRate => .ok u.unknowns.lead

/-! ### Connections -/

omit [Scalar α] in
/-- The connections with their segments. -/
def links (u : WellUnit α) : List (Connection α × Segment α) := u.well.connections.zip u.segments

/-- Whether a drawdown has the direction in which the well is meant to flow. -/
def isForward (type : WellType) (drawdown : α) : Bool :=
  match type with
  | .injector => decide (drawdown < 0)
  | .producer => decide (0 < drawdown)

/-- Whether connections may flow against the type of the well: if the well permits it, or if no connection flows as
the well is meant to. -/
def admitsCrossFlow (u : WellUnit α) (setup : Setup α) (cells : List (Cell α))
    (control : Outcome α (Control α)) : Outcome α Bool :=
  if u.well.crossFlow then .ok true
  else do
    let bhp := (← u.bottomHole setup (← control)).value
    u.links.allM fun (c, s) => do
      let cell ← cellAt cells c.cell
      return !isForward u.well.type (cell.pressure.value - (bhp + s.head))

/-- The surface rates through a connection at a bottom-hole pressure. -/
def connectionFlux (u : WellUnit α) (setup : Setup α) (cells : List (Cell α)) (crossFlow : Bool) (bhp : WellDual α)
    (link : Connection α × Segment α) : Outcome α (PerPhase (WellDual α)) := do
  let cell ← cellAt cells link.1.cell
  let input : ConnectionInput α :=
    ⟨cell, link.1.transmissibility, bhp, link.2.head, u.well.type, crossFlow, u.mix setup.phases⟩
  input.flux setup.phases setup.pvt

/-- The flows through all connections under the current control. -/
def connectionFlows (u : WellUnit α) (setup : Setup α) (cells : List (Cell α)) (s : Slot α) (control : Control α) :
    Outcome α (List (ConnectionFlow α)) := do
  let bhp ← u.bottomHole setup control
  let crossFlow ← u.admitsCrossFlow setup cells (.ok control)
  u.links.mapM fun link => do
    let flux ← u.connectionFlux setup cells crossFlow bhp link
    let reported ← Outcome.need s.bhp
    return ⟨link.1.cell, link.2.efficiency, reported + link.2.head, flux⟩

end WellUnit

end BlackOilWells
