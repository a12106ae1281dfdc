import BlackOilWells.Data.Json
import BlackOilWells.Data.Records
import BlackOilWells.Scenario.Basic

/-!
# Reading scenarios

`Scenario.parse?` reads a scenario document.  A name may be any plain value; it is taken as it is written.  Controls and
economic limits are stricter: there a text has to be quoted, and a control may also be a list that starts with its type.
Only the fields of the scenario itself are checked against a list of known names.
-/

namespace BlackOilWells

namespace ScenarioDialect

/-- How a plain number is written when it is taken as a text. -/
def plainNumber : NumberFormat := { NumberFormat.pointed with positional := fun e => -5 ≤ e && e < 16 }

/-- A plain value as a text. -/
def plainText? : Datum → Option String
  | .null => some "null"
  | .bool b => some (if b then "true" else "false")
  | .int n => some (toString n)
  | .float x => some (plainNumber.write x)
  | .text s => some s
  | _ => none

/-- What a scenario accepts. -/
def plain : Dialect := ⟨Datum.number?, plainText?, false, false⟩

/-- What controls and economic limits accept. -/
def strict : Dialect := ⟨Datum.number?, Datum.text?, true, true⟩

end ScenarioDialect

open ScenarioDialect

/-- Read a cell. -/
def CellSpec.read? (d : Datum) : Option (CellSpec Float) := do
  let f ← plain.fields? ["pressure_bar", "mobility", "region"] d
  return {
    pressureBar := ← f.required "pressure_bar" Datum.number?
    mobility := ← f.required "mobility" (Datum.perPhase? Datum.number?)
    region := ← f.withDefault "region" 0 Datum.count? }

/-- Read a control of a given type from its other fields. -/
def ControlSpec.ofType? (type : String) (rest : Datum) : Option (ControlSpec Float) := do
  let rate (make : Float → PerPhase Float → ControlSpec Float) : Option (ControlSpec Float) := do
    let f ← strict.fields? ["m3_per_day", "distr"] rest
    return make (← f.required "m3_per_day" Datum.number?) (← f.required "distr" (Datum.perPhase? Datum.number?))
  match type with
  | "bhp" => do
    let f ← strict.fields? ["bar"] rest
    return .bhp (← f.required "bar" Datum.number?)
  | "thp" => do
    let f ← strict.fields? ["bar", "vfp_table", "alq"] rest
    return .thp (← f.required "bar" Datum.number?) (← f.required "vfp_table" Datum.id?)
      (← f.withDefault "alq" 0 Datum.number?)
  | "surface_rate" => rate .surfaceRate
  | "reservoir_rate" => rate .reservoirRate
  | _ => none

/-- Read a control. -/
def ControlSpec.read? : Datum → Option (ControlSpec Float)
  | .record entries => do
    guard ((entries.filter (·.1 == "type")).length = 1)
    let type ← entries.lookup "type"
    ofType? (← type.text?) (.record (entries.filter (·.1 != "type")))
  | .list (type :: items) => do ofType? (← type.text?) (.list items)
  | _ => none

/-- Read a well. -/
def WellSpec.read? (d : Datum) : Option (WellSpec Float) := do
  let f ← plain.fields?
    ["name", "type", "ref_depth", "injection_phase", "allow_cross_flow", "connections", "controls",
      "initial_control"] d
  return {
    name := ← f.required "name" plain.text
    type := ← f.required "type" (WellType.read? plain)
    refDepth := ← f.required "ref_depth" Datum.number?
    injectionPhase := ← f.withDefault "injection_phase" none (Datum.option? (Datum.phase? plain))
    crossFlow := ← f.withDefault "allow_cross_flow" true Datum.bool?
    connections := ← f.required "connections" (Datum.list? (Connection.read? plain))
    controls := ← f.required "controls" (Datum.list? ControlSpec.read?)
    initialControl := ← f.withDefault "initial_control" 0 Datum.count? }

/-- Read economic limits; they stand beside the name of the well. -/
def LimitSpec.read? (d : Datum) : Option (LimitSpec Float) := do
  let f ← plain.fields? ["well", "from_step"] d
  return {
    well := ← f.required "well" plain.text
    fromStep := ← f.withDefault "from_step" 0 Datum.count?
    limits := ← Limits.read? { strict with positional := false } d }

/-- Read a member of a group. -/
def MemberSpec.read? (d : Datum) : Option (MemberSpec Float) := do
  let f ← plain.fields? ["well", "group_control", "efficiency", "guide_rate"] d
  return {
    well := ← f.required "well" plain.text
    groupControl := ← f.withDefault "group_control" none (Datum.option? Datum.count?)
    efficiency := ← f.withDefault "efficiency" 1 Datum.number?
    guideRate := ← f.withDefault "guide_rate" 1 Datum.number? }

/-- Read a group. -/
def GroupSpec.read? (d : Datum) : Option (GroupSpec Float) := do
  let f ← plain.fields? ["name", "replacement_fraction", "injection_phase", "efficiency", "members"] d
  return {
    name := ← f.required "name" plain.text
    fraction := ← f.required "replacement_fraction" Datum.number?
    phase := ← f.required "injection_phase" (Datum.phase? plain)
    efficiency := ← f.withDefault "efficiency" 1 Datum.number?
    members := ← f.required "members" (Datum.list? MemberSpec.read?) }

namespace Scenario

/-- The names of the fields. -/
def names : List String :=
  ["phases", "temperature", "pvt", "cells", "wells", "vfp_tables", "econ", "group", "config", "dt_days"]

/-- Read the active phases; oil is active unless said otherwise. -/
def readPhases? (d : Datum) : Option PhaseSet := do
  let f ← plain.fields? ["water", "oil", "gas"] d
  return ⟨← f.withDefault "water" false Datum.bool?, ← f.withDefault "oil" true Datum.bool?,
    ← f.withDefault "gas" false Datum.bool?⟩

/-- Whether a record has only fields of the scenario. -/
def hasKnownFields : Datum → Bool
  | .record entries => entries.all fun (name, _) => names.contains name
  | _ => false

/-- Read a scenario. -/
def read? (d : Datum) : Option (Scenario Float) := do
  guard (hasKnownFields d)
  let f ← plain.fields? names d
  return {
    phases := ← f.required "phases" readPhases?
    temperature := ← f.withDefault "temperature" 350.0 Datum.number?
    regions := ← f.withDefault "pvt" [] (Datum.list? (FluidRegion.read? plain))
    cells := ← f.required "cells" (Datum.list? CellSpec.read?)
    wells := ← f.required "wells" (Datum.list? WellSpec.read?)
    liftTables := ← f.withDefault "vfp_tables" [] (Datum.list? (LiftTable.read? plain))
    limits := ← f.withDefault "econ" [] (Datum.list? LimitSpec.read?)
    group := ← f.withDefault "group" none (Datum.option? GroupSpec.read?)
    settings := ← f.withDefault "config" .standard (Settings.read? plain)
    days := ← f.withDefault "dt_days" 1 Datum.number? }

/-- Whether a character may stand in a document. -/
def isDocumentChar (c : Char) : Bool :=
  let n := c.toNat
  c = '\t' || c = '\n' || c = '\r' || (0x20 ≤ n && n ≤ 0x7e) || n = 0x85 || (0xa0 ≤ n && n ≤ 0xfffd && n ≠ 0xfeff)
    || 0x10000 ≤ n

/-- Read a scenario document. -/
def parse? (document : String) : Option (Scenario Float) :=
  if document.toList.all isDocumentChar then (Json.read? document).bind read? else none

end Scenario

end BlackOilWells
