import BlackOilWells.Well.State

/-!
# Hydrostatics of the well bore

The well bore is a column of fluid segments, one above each connection, from the reference depth downwards.  A segment
carries everything that enters the well at or below its connection.  From the fluid properties at each connection come
the density of each segment (`Well.densities`) and from the densities the pressure difference between the reference
depth and each connection (`Well.heads`).  Those of all wells lie in flat lists (`Wells.densities`, `Wells.heads`).
-/

namespace BlackOilWells

/-- Fluid properties at the connections of all wells. -/
structure ConnectionProperties (α : Type) where
  /-- Inverse formation volume factors. -/
  invB : List (PerPhase α)
  /-- Saturated gas-oil ratios; empty unless both oil and gas are active. -/
  rsMax : List α
  /-- Saturated oil-gas ratios; empty unless both oil and gas are active. -/
  rvMax : List α
  /-- Surface densities. -/
  surfaceDensity : List (PerPhase α)

/-- Fluid properties at one connection. -/
structure ConnectionFluid (α : Type) where
  /-- Inverse formation volume factors. -/
  invB : PerPhase α
  /-- The saturated gas-oil ratio. -/
  rsMax : α
  /-- The saturated oil-gas ratio. -/
  rvMax : α
  /-- Surface densities. -/
  surfaceDensity : PerPhase α

variable {α : Type} [Scalar α]

/-! ### Properties -/

/-- The ratio at which a phase carries its partner: that of the rates, at most the ratio at saturation.  Without any
partner there is none, and the phase counts as saturated. -/
def carriedRatio (partner phase saturated : α) : Option (WellDual α) :=
  if 0 < partner then some (.const (Scalar.min (if 0 < phase then partner / phase else 0) saturated)) else none

/-- The fluid properties in a cell at a pressure, for a well with given rates. -/
def Cell.connectionFluid (cell : Cell α) (phases : PhaseSet) (pvt : PvtModel α) (rates : PerPhase α) (pressure : α) :
    Except FluidError (ConnectionFluid α) := do
  let region := cell.region
  let t := cell.temperature
  let p : WellDual α := .const pressure
  let water ←
    if phases.water then do pure (← pvt.inverseFvf .water region t p none).value
    else pure 1
  let densities := PerPhase.ofFnM fun phase =>
    if phases.isActive phase then pvt.surfaceDensity phase region else pure 0
  if phases.hasOilAndGas then
    let rsMax := (← pvt.dissolvedGas region t p).value
    let rvMax := (← pvt.vaporizedOil region t p).value
    let oilRate := Scalar.abs rates.oil
    let gasRate := Scalar.abs rates.gas
    let oil ← pvt.inverseFvf .oil region t p (carriedRatio gasRate oilRate rsMax)
    let gas ← pvt.inverseFvf .gas region t p (carriedRatio oilRate gasRate rvMax)
    return ⟨⟨water, oil.value, gas.value⟩, rsMax, rvMax, ← densities⟩
  else
    let dead (phase : Phase) : Except FluidError α :=
      if phases.isActive phase then do
        let b ← pvt.inverseFvf phase region t p (some (.const 0))
        return b.value
      else return 1
    let oil ← dead .oil
    let gas ← dead .gas
    return ⟨⟨water, oil, gas⟩, 0, 0, ← densities⟩

/-- The pressure above a connection: the well-bore pressure at the connection above it, and the bottom-hole pressure
for the top connection. -/
def FlowState.pressureAbove (s : FlowState α) (w : Placed (Well α)) (k : Nat) : Outcome α α :=
  match k with
  | 0 => Outcome.need s.bhp[w.index]?
  | k + 1 => s.pressureAt (w.first + k)

/-- The fluid properties at the connections of one well.  A connection is evaluated halfway between its own pressure
and the pressure above it. -/
def Well.connectionFluids (w : Placed (Well α)) (s : FlowState α) (cells : List (Cell α)) (phases : PhaseSet)
    (pvt : PvtModel α) : Outcome α (List (ConnectionFluid α)) := do
  let rates ← Outcome.need (s.slot w.index).rates
  w.item.connections.zipIdx.mapM fun (c, k) => do
    match cells[c.cell]? with
    | none => throw (.logic (.propertyCellMissing c.cell))
    | some cell =>
      let above ← s.pressureAbove w k
      let here ← s.pressureAt (w.first + k)
      Outcome.ofFluid (cell.connectionFluid phases pvt rates ((here + above) / 2.0))

/-- The fluid properties at the connections of all wells. -/
def ConnectionProperties.ofFlow (wells : Wells α) (s : FlowState α) (cells : List (Cell α)) (phases : PhaseSet)
    (pvt : PvtModel α) : Outcome α (ConnectionProperties α) := do
  let fluids := (← wells.placed.mapM fun w => Well.connectionFluids w s cells phases pvt).flatten
  let ratios (f : ConnectionFluid α → α) : List α := if phases.hasOilAndGas then fluids.map f else []
  return ⟨fluids.map (·.invB), ratios (·.rsMax), ratios (·.rvMax), fluids.map (·.surfaceDensity)⟩

/-! ### Densities -/

/-- The surface flow upwards out of each connection: what leaves the one below it, less its own rates. -/
def upwardFlows : List (PerPhase α) → List (PerPhase α)
  | [] => []
  | q :: qs =>
    let below := upwardFlows qs
    .zipWith (· - ·) (below.head?.getD (.replicate 0)) q :: below

/-- The composition of a flow; a flow that cancels out takes the given composition. -/
def PerPhase.composition (flow rest : PerPhase α) : PerPhase α :=
  let total := flow.sum
  if total == 0 then rest else flow.map fun q => Scalar.abs (q / total)

/-- The ratio of two parts of a mix, at most the ratio at saturation; zero without the second part. -/
def mixRatio (part whole : α) (saturated : Option α) : α :=
  match saturated with
  | some most => if 0 < whole then Scalar.min (part / whole) most else 0
  | none => 0

/-- The density of a mix.  Gas dissolved in the oil is not free gas, and vaporized oil is not free oil. -/
def mixDensity (phases : PhaseSet) (mix invB surfaceDensity : PerPhase α) (rsMax rvMax : Option α) : α :=
  let rs := mixRatio mix.gas mix.oil rsMax
  let rv := mixRatio mix.oil mix.gas rvMax
  let oil := if rv == 0 then mix.oil else (mix.oil - mix.gas * rv) / (1 - rs * rv)
  let gas := if rs == 0 then mix.gas else (mix.gas - mix.oil * rs) / (1 - rs * rv)
  let volume := phases.total (.zipWith (· / ·) ⟨mix.water, oil, gas⟩ invB)
  let mass := phases.total (.zipWith (· * ·) surfaceDensity mix)
  if volume == 0 then 0 else mass / volume

/-- The entry of a list of ratios, where the list is not empty. -/
def ratioAt (ratios : List α) (i : Nat) : Outcome α (Option α) :=
  if ratios.isEmpty then .ok none else some <$> Outcome.need ratios[i]?

/-- The density of the segment above a connection. -/
def ConnectionProperties.density (props : ConnectionProperties α) (phases : PhaseSet) (mix : PerPhase α) (i : Nat) :
    Outcome α α := do
  let rsMax ← if 0 < mix.oil then ratioAt props.rsMax i else pure none
  let rvMax ← if 0 < mix.gas then ratioAt props.rvMax i else pure none
  let invB ← Outcome.need props.invB[i]?
  let surfaceDensity ← Outcome.need props.surfaceDensity[i]?
  return mixDensity phases mix invB surfaceDensity rsMax rvMax

/-- The densities of the segments of one well. -/
def Well.densities (w : Placed (Well α)) (s : FlowState α) (phases : PhaseSet) (props : ConnectionProperties α) :
    Outcome α (List α) := do
  let rates ← w.item.connections.zipIdx.mapM fun (_, k) => s.ratesAt (w.first + k)
  (upwardFlows rates).zipIdx.mapM fun (flow, k) =>
    props.density phases (flow.composition w.item.composition) (w.first + k)

/-- The densities of the segments of all wells. -/
def Wells.densities (ws : Wells α) (s : FlowState α) (phases : PhaseSet) (props : ConnectionProperties α) :
    Outcome α (List α) :=
  List.flatten <$> ws.placed.mapM fun p => Well.densities p s phases props

/-! ### Pressure differences -/

/-- The pressure differences down a column of segments, from a depth at which the difference is already `acc`. -/
def columnHeads (gravity : α) : α → α → List (α × α) → List α
  | _, _, [] => []
  | depth, acc, (z, density) :: rest =>
    let acc := acc + (z - depth) * density * gravity
    acc :: columnHeads gravity z acc rest

/-- The pressure differences from the reference depth to the connections, at given segment densities. -/
def Well.heads (w : Well α) (gravity : α) (densities : List α) : List α :=
  columnHeads gravity w.refDepth 0 ((w.connections.map (·.depth)).zip densities)

/-- The pressure differences to the connections of all wells, at given densities. -/
def Wells.heads (ws : Wells α) (gravity : α) (densities : List α) : List α :=
  ws.placed.flatMap fun p => p.item.heads gravity (window p.first p.item.connections.length densities)

end BlackOilWells
