import BlackOilWells.Data.Reading
import BlackOilWells.Economics.Limits
import BlackOilWells.Fluid.Pvt
import BlackOilWells.Model.Group
import BlackOilWells.Model.Settings
import BlackOilWells.Numeric.Double
import BlackOilWells.Text.Number
import BlackOilWells.Well.Lift
import BlackOilWells.Well.Topology

/-!
# Records of the domain

How the values of the domain are held in data: for each type a reader (`read?`) and, where it is written again, its
form as data (`toDatum`).  Reading checks types only; whether a value makes sense is for the functions that accept it.
-/

namespace BlackOilWells

/-! ### Parts -/

namespace Datum

/-- A quantity by phase. -/
def perPhase? {β : Type} (read : Datum → Option β) (d : Datum) : Option (PerPhase β) := do
  PerPhase.ofList? (← d.list? read)

/-- A quantity by phase as data. -/
def ofPerPhase (q : PerPhase Float) : Datum := .list (q.toList.map .float)

/-- A value or nothing as data. -/
def ofOption {β : Type} (write : β → Datum) (o : Option β) : Datum := o.elim .null write

/-- A phase by its name. -/
def phase? (dialect : Dialect) : Datum → Option Phase := choice? dialect (Phase.all.map fun p => (p.name, p))

end Datum

namespace WellType

/-- The name of the type. -/
def name : WellType → String
  | .injector => "injector"
  | .producer => "producer"

/-- Read a type of well. -/
def read? (dialect : Dialect) : Datum → Option WellType :=
  Datum.choice? dialect [("injector", .injector), ("producer", .producer)]

end WellType

/-- The set of phases as data: a record of one list of truth values. -/
def PhaseSet.toDatum (s : PhaseSet) : Datum := .record [("active", .list [.bool s.water, .bool s.oil, .bool s.gas])]

/-- Read a set of phases; it may be empty. -/
def PhaseSet.read? (dialect : Dialect) (d : Datum) : Option PhaseSet := do
  let f ← dialect.fields? ["active"] d
  let q ← f.required "active" (Datum.perPhase? Datum.bool?)
  return ⟨q.water, q.oil, q.gas⟩

/-! ### Fluids and settings -/

namespace FluidRegion

/-- The names of the fields. -/
def names : List String :=
  ["surface_density", "reference_pressure", "inv_b_ref", "compressibility", "rs_per_pa", "rs_max", "rv_per_pa",
    "rv_max", "oil_swelling", "gas_swelling"]

/-- Read a fluid region; what is not given is standard. -/
def read? (dialect : Dialect) (d : Datum) : Option (FluidRegion Float) := do
  let f ← dialect.fields? names d
  let std : FluidRegion Float := .standard
  let number := dialect.number
  let perPhase := Datum.perPhase? number
  return {
    surfaceDensity := ← f.withDefault "surface_density" std.surfaceDensity perPhase
    referencePressure := ← f.withDefault "reference_pressure" std.referencePressure number
    inverseFvfRef := ← f.withDefault "inv_b_ref" std.inverseFvfRef perPhase
    compressibility := ← f.withDefault "compressibility" std.compressibility perPhase
    rsSlope := ← f.withDefault "rs_per_pa" std.rsSlope number
    rsMax := ← f.withDefault "rs_max" std.rsMax number
    rvSlope := ← f.withDefault "rv_per_pa" std.rvSlope number
    rvMax := ← f.withDefault "rv_max" std.rvMax number
    oilSwelling := ← f.withDefault "oil_swelling" std.oilSwelling number
    gasSwelling := ← f.withDefault "gas_swelling" std.gasSwelling number }

/-- The region as data. -/
def toDatum (r : FluidRegion Float) : Datum :=
  .record
    (names.zip
      [.ofPerPhase r.surfaceDensity, .float r.referencePressure, .ofPerPhase r.inverseFvfRef,
        .ofPerPhase r.compressibility, .float r.rsSlope, .float r.rsMax, .float r.rvSlope, .float r.rvMax,
        .float r.oilSwelling, .float r.gasSwelling])

end FluidRegion

namespace Settings

/-- The names of the fields. -/
def names : List String :=
  ["tolerance_wells", "max_residual_allowed", "dbhp_max_rel", "dwell_fraction_max", "max_local_iterations",
    "solve_welleq_initially", "well_accumulation_volume", "gravity", "min_rate_control_bhp", "terminal_output"]

/-- Read settings; what is not given is standard. -/
def read? (dialect : Dialect) (d : Datum) : Option (Settings Float) := do
  let f ← dialect.fields? names d
  let std : Settings Float := .standard
  let number := dialect.number
  return {
    tolerance := ← f.withDefault "tolerance_wells" std.tolerance number
    maxResidual := ← f.withDefault "max_residual_allowed" std.maxResidual number
    maxBhpChange := ← f.withDefault "dbhp_max_rel" std.maxBhpChange number
    maxFractionChange := ← f.withDefault "dwell_fraction_max" std.maxFractionChange number
    maxLocalIterations := ← f.withDefault "max_local_iterations" std.maxLocalIterations Datum.count?
    solveFirst := ← f.withDefault "solve_welleq_initially" std.solveFirst Datum.bool?
    storageVolume := ← f.withDefault "well_accumulation_volume" std.storageVolume number
    gravity := ← f.withDefault "gravity" std.gravity number
    minBhp := ← f.withDefault "min_rate_control_bhp" std.minBhp number
    terminalOutput := ← f.withDefault "terminal_output" std.terminalOutput Datum.bool? }

/-- The settings as data. -/
def toDatum (s : Settings Float) : Datum :=
  .record
    (names.zip
      [.float s.tolerance, .float s.maxResidual, .float s.maxBhpChange, .float s.maxFractionChange,
        .int s.maxLocalIterations, .bool s.solveFirst, .float s.storageVolume, .float s.gravity, .float s.minBhp,
        .bool s.terminalOutput])

end Settings

/-! ### Wells -/

namespace ControlKind

/-- Read the kind of a control: a record, or a list that starts with the name of the kind. -/
def read? (dialect : Dialect) (d : Datum) : Option (ControlKind Float) := do
  let (tag, rest) ← match d with
    | .record entries => do
      guard ((entries.filter (·.1 == "type")).length = 1)
      let tag ← entries.lookup "type"
      pure (tag, Datum.record (entries.filter (·.1 != "type")))
    | .list (tag :: items) => pure (tag, Datum.list items)
    | _ => none
  let plain (kind : ControlKind Float) : Option (ControlKind Float) :=
    match rest with
    | .list (_ :: _) => none
    | _ => some kind
  match ← tag.text? with
  | "bhp" => plain .bhp
  | "thp" => do
    let f ← { dialect with positional := true }.fields? ["vfp_table", "alq"] rest
    return .thp (← f.required "vfp_table" Datum.id?) (← f.required "alq" dialect.number)
  | "surface_rate" => plain .surfaceRate
  | "reservoir_rate" => plain .reservoirRate
  | _ => none

/-- The kind as data. -/
def toDatum : ControlKind Float → Datum
  | .bhp => .record [("type", .text "bhp")]
  | .thp table lift => .record [("type", .text "thp"), ("vfp_table", .int table), ("alq", .float lift)]
  | .surfaceRate => .record [("type", .text "surface_rate")]
  | .reservoirRate => .record [("type", .text "reservoir_rate")]

end ControlKind

namespace Control

/-- Read a control; its weights are zero unless given. -/
def read? (dialect : Dialect) (d : Datum) : Option (Control Float) := do
  let f ← dialect.fields? ["kind", "target", "distr"] d
  return {
    kind := ← f.required "kind" (ControlKind.read? dialect)
    target := ← f.required "target" dialect.number
    weights := ← f.withDefault "distr" (.replicate 0) (Datum.perPhase? dialect.number) }

/-- The control as data. -/
def toDatum (c : Control Float) : Datum :=
  .record [("kind", c.kind.toDatum), ("target", .float c.target), ("distr", .ofPerPhase c.weights)]

end Control

namespace Controls

/-- Read controls; the first one is the initial one unless another is given. -/
def read? (dialect : Dialect) (d : Datum) : Option (Controls Float) := do
  let f ← dialect.fields? ["controls", "initial"] d
  return ⟨← f.required "controls" (Datum.list? (Control.read? dialect)), ← f.withDefault "initial" 0 Datum.count?⟩

/-- The controls as data. -/
def toDatum (cs : Controls Float) : Datum :=
  .record [("controls", .list (cs.list.map (·.toDatum))), ("initial", .int cs.initial)]

end Controls

namespace Connection

/-- Read a connection; it is fully efficient unless said otherwise. -/
def read? (dialect : Dialect) (d : Datum) : Option (Connection Float) := do
  let f ← dialect.fields? ["cell", "transmissibility", "depth", "efficiency"] d
  return {
    cell := ← f.required "cell" Datum.count?
    transmissibility := ← f.required "transmissibility" dialect.number
    depth := ← f.required "depth" dialect.number
    efficiency := ← f.withDefault "efficiency" 1 dialect.number }

/-- The connection as data. -/
def toDatum (c : Connection Float) : Datum :=
  .record
    [("cell", .int c.cell), ("transmissibility", .float c.transmissibility), ("depth", .float c.depth),
      ("efficiency", .float c.efficiency)]

end Connection

namespace Well

/-- Read a well; it does not permit cross flow unless said otherwise. -/
def read? (dialect : Dialect) (d : Datum) : Option (Well Float) := do
  let f ← dialect.fields?
    ["name", "well_type", "ref_depth", "connections", "comp_frac", "controls", "allow_cross_flow"] d
  return {
    name := ← f.required "name" dialect.text
    type := ← f.required "well_type" (WellType.read? dialect)
    refDepth := ← f.required "ref_depth" dialect.number
    connections := ← f.required "connections" (Datum.list? (Connection.read? dialect))
    composition := ← f.required "comp_frac" (Datum.perPhase? dialect.number)
    controls := ← f.required "controls" (Controls.read? dialect)
    crossFlow := ← f.withDefault "allow_cross_flow" false Datum.bool? }

/-- The well as data. -/
def toDatum (w : Well Float) : Datum :=
  .record
    [("name", .text w.name), ("well_type", .text w.type.name), ("ref_depth", .float w.refDepth),
      ("connections", .list (w.connections.map (·.toDatum))), ("comp_frac", .ofPerPhase w.composition),
      ("controls", w.controls.toDatum), ("allow_cross_flow", .bool w.crossFlow)]

end Well

namespace FlowKind

/-- The name of the rate. -/
def name : FlowKind → String
  | .oil => "oil"
  | .liquid => "liquid"
  | .gas => "gas"

/-- Read the rate of a flow axis. -/
def read? (dialect : Dialect) : Datum → Option FlowKind :=
  Datum.choice? dialect ([FlowKind.oil, .liquid, .gas].map fun k => (k.name, k))

end FlowKind

namespace LiftTable

/-- Read a lift table. -/
def read? (dialect : Dialect) (d : Datum) : Option (LiftTable Float) := do
  let f ← dialect.fields? ["id", "datum_depth", "flow_kind", "flow", "thp", "bhp"] d
  let axis := Datum.list? dialect.number
  return {
    id := ← f.required "id" Datum.id?
    datumDepth := ← f.required "datum_depth" dialect.number
    flowKind := ← f.required "flow_kind" (FlowKind.read? dialect)
    flowNodes := ← f.required "flow" axis
    thpNodes := ← f.required "thp" axis
    grid := ← f.required "bhp" (Datum.list? axis) }

/-- The table as data. -/
def toDatum (t : LiftTable Float) : Datum :=
  let axis (xs : List Float) : Datum := .list (xs.map .float)
  .record
    [("id", .int t.id), ("datum_depth", .float t.datumDepth), ("flow_kind", .text t.flowKind.name),
      ("flow", axis t.flowNodes), ("thp", axis t.thpNodes), ("bhp", .list (t.grid.map axis))]

end LiftTable

/-! ### Limits and groups -/

namespace LimitQuantity

/-- The name of the quantity. -/
def name : LimitQuantity → String
  | .rate => "rate"
  | .potential => "potential"

/-- Read what limits are evaluated on. -/
def read? (dialect : Dialect) : Datum → Option LimitQuantity :=
  Datum.choice? dialect ([LimitQuantity.rate, .potential].map fun q => (q.name, q))

end LimitQuantity

namespace Limits

/-- The names of the fields. -/
def names : List String :=
  ["min_oil_rate", "min_gas_rate", "min_liquid_rate", "min_reservoir_fluid_rate", "max_water_cut",
    "max_gas_oil_ratio", "max_water_gas_ratio", "max_gas_liquid_ratio", "quantity_limit", "end_run",
    "follow_on_well", "automatic_shut_in"]

/-- Read limits; there is none unless given. -/
def read? (dialect : Dialect) (d : Datum) : Option (Limits Float) := do
  let f ← dialect.fields? names d
  let limit (name : String) : Option (Option Float) := f.withDefault name .none (Datum.option? dialect.number)
  return {
    minOil := ← limit "min_oil_rate"
    minGas := ← limit "min_gas_rate"
    minLiquid := ← limit "min_liquid_rate"
    minReservoir := ← limit "min_reservoir_fluid_rate"
    maxWaterCut := ← limit "max_water_cut"
    maxGasOil := ← limit "max_gas_oil_ratio"
    maxWaterGas := ← limit "max_water_gas_ratio"
    maxGasLiquid := ← limit "max_gas_liquid_ratio"
    quantity := ← f.withDefault "quantity_limit" .rate (LimitQuantity.read? dialect)
    endRun := ← f.withDefault "end_run" false Datum.bool?
    followOn := ← f.withDefault "follow_on_well" .none (Datum.option? dialect.text)
    shutIn := ← f.withDefault "automatic_shut_in" true Datum.bool? }

/-- The limits as data. -/
def toDatum (l : Limits Float) : Datum :=
  let limit : Option Float → Datum := .ofOption .float
  .record
    (names.zip
      [limit l.minOil, limit l.minGas, limit l.minLiquid, limit l.minReservoir, limit l.maxWaterCut,
        limit l.maxGasOil, limit l.maxWaterGas, limit l.maxGasLiquid, .text l.quantity.name, .bool l.endRun,
        .ofOption .text l.followOn, .bool l.shutIn])

end Limits

namespace LimitSchedule

/-- Read the name of a step: digits without a leading zero. -/
def stepName? (s : String) : Option Nat :=
  match s.toList with
  | ['0'] => some 0
  | '0' :: _ => .none
  | '+' :: _ => .none
  | _ => readCount? s

/-- The last value for each key, at the place of the first. -/
def keepLast {κ β : Type} [BEq κ] (entries : List (κ × β)) : List (κ × β) :=
  entries.foldl (fun acc (k, b) => insertAt k b acc) []

/-- Read a schedule: for each well a record of limits by step. -/
def read? (dialect : Dialect) (d : Datum) : Option (LimitSchedule Float) := do
  let f ← dialect.fields? ["limits"] d
  let entries : Datum → Option (List (String × Datum))
    | .record entries => some entries
    | _ => .none
  let wells ← f.required "limits" entries
  let wells ← wells.mapM fun (well, steps) => do
    let steps ← (← entries steps).mapM fun (step, limits) => do
      return (← stepName? step, ← Limits.read? dialect limits)
    return (well, keepLast steps)
  return ⟨keepLast wells⟩

/-- The schedule as data. -/
def toDatum (s : LimitSchedule Float) : Datum :=
  let steps (entries : List (Nat × Limits Float)) : Datum :=
    .record (entries.map fun (step, limits) => (toString step, limits.toDatum))
  .record [("limits", .record (s.wells.map fun (well, entries) => (well, steps entries)))]

end LimitSchedule

namespace GroupMember

/-- Read a member of a group; it stands for itself. -/
def read? (dialect : Dialect) (d : Datum) : Option (GroupMember Float) := do
  let f ← dialect.fields? ["well", "index", "well_type", "group_control", "efficiency", "guide_rate"] d
  return {
    well := ← f.required "well" dialect.text
    index := ← f.required "index" Datum.count?
    type := ← f.required "well_type" (WellType.read? dialect)
    groupControl := ← f.withDefault "group_control" none (Datum.option? Datum.count?)
    efficiency := ← f.withDefault "efficiency" 1 dialect.number
    guideRate := ← f.withDefault "guide_rate" 1 dialect.number
    individual := true }

/-- The member as data. -/
def toDatum (m : GroupMember Float) : Datum :=
  .record
    [("well", .text m.well), ("index", .int m.index), ("well_type", .text m.type.name),
      ("group_control", .ofOption (fun n => .int n) m.groupControl), ("efficiency", .float m.efficiency),
      ("guide_rate", .float m.guideRate)]

end GroupMember

end BlackOilWells
