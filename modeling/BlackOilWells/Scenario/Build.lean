import BlackOilWells.Scenario.Basic

/-!
# Building a simulation

`Scenario.build` checks a scenario part by part: fluids, cells, wells, lift tables, limits, group and settings.  The
first part that is rejected decides the error.
-/

namespace BlackOilWells

variable {α : Type}

namespace ScenarioError

/-- A result of the fluid model. -/
def ofFluid {β : Type} : Except FluidError β → Except (ScenarioError α) β := Except.mapError .fluid

/-- A result of an operation on wells. -/
def ofWell {β : Type} : Outcome α β → Except (ScenarioError α) β := Except.mapError .well

end ScenarioError

open ScenarioError

namespace Scenario

variable [Scalar α]

/-! ### Wells -/

/-- The well of a description, before it is accepted. -/
def buildWell (spec : WellSpec α) : Except (ScenarioError α) (Well α) := do
  let controls ← ofWell (Controls.create (spec.controls.map (·.control)) spec.initialControl)
  let well ← match spec.type with
    | .producer => pure (Well.producer spec.name spec.refDepth spec.connections controls)
    | .injector =>
      match spec.injectionPhase with
      | some phase => pure (Well.injector spec.name spec.refDepth phase spec.connections controls)
      | none => throw (.inconsistent (.noInjectionPhase spec.name))
  return { well with crossFlow := spec.crossFlow }

/-- The lift tables, each of them validated. -/
def buildLift (tables : List (LiftTable α)) : Outcome α (LiftTables α) :=
  tables.foldlM (fun ts t => do t.validate; return ts.insert t) .empty

/-! ### Limits and group -/

/-- The schedule of the limits, all of them for wells that exist. -/
def buildLimits (wells : Wells α) (specs : List (LimitSpec α)) : Except (ScenarioError α) (LimitSchedule α) :=
  specs.foldlM (fun schedule spec =>
    if (wells.indexOf? spec.well).isSome then .ok (schedule.set spec.well spec.fromStep spec.limits)
    else .error (.inconsistent (.limitsForUnknownWell spec.well))) .empty

/-- A member of a group, for a well that exists and has the control to be taken over. -/
def buildMember (wells : Wells α) (group : String) (spec : MemberSpec α) :
    Except (ScenarioError α) (GroupMember α) := do
  match wells.indexOf? spec.well with
  | none => throw (.inconsistent (.unknownMember group spec.well))
  | some index =>
    let well ← ofWell (wells.get index)
    if let some control := spec.groupControl then
      let _ ← ofWell (well.controls.get control)
    return ⟨spec.well, index, well.type, spec.groupControl, spec.efficiency, spec.guideRate, true⟩

/-- The group of a description. -/
def buildGroup (wells : Wells α) (spec : GroupSpec α) : Except (ScenarioError α) (VoidageGroup α) := do
  let members ← spec.members.mapM (buildMember wells spec.name)
  return { VoidageGroup.create spec.name spec.fraction spec.phase with efficiency := spec.efficiency, members }

/-! ### Pressures -/

omit [Scalar α] in
/-- The cells of a region. -/
def cellsOfRegion (s : Scenario α) (region : Nat) : List (CellSpec α) := s.cells.filter (·.region == region)

/-- The average pressure of a region in bar; a region without cells has the average of all cells. -/
def averagePressure (s : Scenario α) (region : Nat) : α :=
  let cells := s.cellsOfRegion region
  if cells.isEmpty then Scalar.sum (s.cells.map (·.pressureBar)) / ((max s.cells.length 1 : Nat) : α)
  else (cells.map (·.pressureBar)).foldl (· + ·) 0 / (cells.length : α)

/-- The average pressures of the regions in pascals. -/
def regionPressures (s : Scenario α) (count : Nat) : List α :=
  (List.range count).map fun region => Units.pascalOfBar (s.averagePressure region)

/-! ### Everything together -/

/-- The fluid model. -/
def buildFluid (s : Scenario α) : Except FluidError (PvtModel α) := do
  let regions ← FluidRegions.ofList (if s.regions.isEmpty then [.standard] else s.regions)
  return regions.model

/-- The simulation of a scenario. -/
def build (s : Scenario α) : Except (ScenarioError α) (Simulation α) := do
  let phases ← ofFluid (PhaseSet.create s.phases.water s.phases.oil s.phases.gas)
  let pvt ← ofFluid s.buildFluid
  let cells ← ofFluid (s.cells.mapM fun c =>
    Cell.saturated pvt phases (Units.pascalOfBar c.pressureBar) s.temperature c.mobility c.region)
  let wells ← ofWell (Wells.create (← s.wells.mapM buildWell) phases cells.length)
  let lift ← ofWell (buildLift s.liftTables)
  let limits ← buildLimits wells s.limits
  let group ← s.group.mapM (buildGroup wells)
  let setup : Setup α := ⟨phases, s.settings, pvt, lift, none⟩
  let model ← ofWell (Model.create wells setup)
  let converter ← match s.group with
    | none => pure none
    | some _ => do
      let c ← ofFluid (RegionConverter.create pvt phases (s.regionPressures pvt.regions) s.temperature)
      pure (some c.converter)
  return ⟨cells, { model with setup := { setup with converter := converter } }, group, limits,
    Units.secondOfDay s.days⟩

end Scenario

/-- The session in which a simulation starts. -/
def Simulation.start [Scalar α] (s : Simulation α) : Outcome α (Session α (Option (VoidageGroup α))) := do
  let flow ← FlowState.init s.model.wells s.cells s.model.setup.phases
  return ⟨← s.model.setUnknowns flow, flow, s.group, []⟩

end BlackOilWells
