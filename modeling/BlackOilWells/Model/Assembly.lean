import BlackOilWells.Model.Relations

/-!
# Assembly of the well equations

The equation of each phase balances the storage in the well bore, the surface rate under the control and the flows
through the connections.  Residual and derivatives are read off differentiable values: the derivatives by the well
unknowns give the Jacobian of the well, those by the cell unknowns its coupling to the cells.  The cells see the flows
reduced by the efficiencies of the connections.

The row of an absent phase holds a one at the fraction of the phase, so that its unknown does not move.
-/

namespace BlackOilWells

variable {α : Type} [Scalar α]

namespace PerPhase

omit [Scalar α] in
/-- The values, as a vector of equations. -/
def values (q : PerPhase (WellDual α)) : Vec3 α := (q.map (·.value)).toVec

omit [Scalar α] in
/-- The derivatives by the cell unknowns, one row for each phase. -/
def cellRows (q : PerPhase (WellDual α)) : Block α := (q.map WellDual.byCell).toVec

omit [Scalar α] in
/-- The derivatives by the well unknowns, one row for each phase. -/
def wellRows (q : PerPhase (WellDual α)) : Block α := (q.map WellDual.byWell).toVec

end PerPhase

namespace ConnectionFlow

/-- The rates that the cell sees. -/
def effective (f : ConnectionFlow α) (phases : PhaseSet) : PerPhase (WellDual α) :=
  phases.select (f.flux.map (· * f.efficiency)) (.replicate 0)

/-- The addition to the equations of the cell. -/
def source (f : ConnectionFlow α) (phases : PhaseSet) : Source α :=
  ⟨f.cell, 0 - (f.effective phases).values, 0 - (f.effective phases).cellRows⟩

/-- The coupling of well and cell. -/
def coupling (f : ConnectionFlow α) (phases : PhaseSet) : Coupling α :=
  ⟨f.cell, 0 - (f.effective phases).wellRows, 0 - f.flux.cellRows⟩

end ConnectionFlow

/-- A Jacobian with a one at the fraction of each absent phase. -/
def pinAbsent (phases : PhaseSet) (d : Block α) : Block α where
  x := if phases.water then d.x else { d.x with y := 1 }
  y := d.y
  z := if phases.gas then d.z else { d.z with z := 1 }

namespace WellUnit

/-- Storage in the well bore and surface rate of each active phase. -/
def balance (u : WellUnit α) (setup : Setup α) (control : Control α) (dt : α) : PerPhase (WellDual α) :=
  let storage := setup.settings.storageVolume / dt
  setup.phases.select
    (.ofFn fun p =>
      (u.fraction setup.phases p - u.startFractions.get p) * storage + u.surfaceRate setup.phases control p)
    (.replicate 0)

/-- The linear system of a well with given flows, before elimination. -/
def linearSystem (u : WellUnit α) (setup : Setup α) (control : Control α) (dt : α) (flows : List (ConnectionFlow α)) :
    WellSystem α where
  couplings := flows.map (·.coupling setup.phases)
  jacobian := pinAbsent setup.phases
    (flows.foldl (fun d f => d - f.flux.wellRows) 0 + (u.balance setup control dt).wellRows)
  residual := flows.foldl (fun r f => r - f.flux.values) 0 + (u.balance setup control dt).values
  inverse := none

/-- Assemble and eliminate the equations of a well.  The result holds the flows through the connections. -/
def assemble (u : WellUnit α) (setup : Setup α) (cells : List (Cell α)) (dt : α) (s : Slot α) :
    Outcome α (WellUnit α × List (ConnectionFlow α)) := do
  let control ← s.currentControl u.well
  let flows ← u.connectionFlows setup cells s control
  let system ← (u.linearSystem setup control dt flows).eliminate (some u.well.name)
  return ({ u with system := system, sources := flows.map (·.source setup.phases) }, flows)

end WellUnit

namespace Model

/-- Write the flows through the connections of a well to a state. -/
def putFlows (first : Nat) (flows : List (ConnectionFlow α)) : Attempt α (FlowState α) Unit :=
  flows.zipIdx.forM fun (f, k) => FlowState.putConnection (first + k) f.pressure (f.flux.map (·.value))

/-- Assemble all wells.  Only if all succeed, the model and the state change. -/
def assemble (m : Model α) (cells : List (Cell α)) (dt : α) : Attempt α (FlowState α) (Model α) := do
  let s ← get
  let assembled ← m.units.zipIdx.mapM fun (u, w) => show Outcome α _ from u.assemble m.setup cells dt (s.slot w)
  (m.placed.zip assembled).forM fun (p, _, flows) => putFlows p.first flows
  return { m with units := assembled.map (·.1) }

end Model

end BlackOilWells
