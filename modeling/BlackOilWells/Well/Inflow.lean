import BlackOilWells.Fluid.Cell
import BlackOilWells.Well.Control

/-!
# Inflow

The surface rates through one connection.  The drawdown, cell pressure minus well-bore pressure, drives the flow: with
a positive drawdown the phases of the cell enter the well at their own mobilities and bring what is dissolved in them;
otherwise the mix of the well stream enters the cell at the total mobility.  A flow against the type of the well is
zero unless the well admits cross flow.
-/

namespace BlackOilWells

/-- What the flow through a connection depends on. -/
structure ConnectionInput (α : Type) where
  /-- The connected cell. -/
  cell : Cell α
  /-- The connection transmissibility factor. -/
  transmissibility : α
  /-- The bottom-hole pressure of the well. -/
  bhp : WellDual α
  /-- The hydrostatic pressure difference from the reference depth of the well to the connection. -/
  head : α
  /-- Whether the well injects or produces. -/
  type : WellType
  /-- Whether the connection may flow against the type of the well. -/
  crossFlow : Bool
  /-- The volume fractions of the well stream. -/
  mix : PerPhase (WellDual α)

namespace ConnectionInput

variable {α : Type} [Scalar α]

/-- The pressure in the well bore at the connection. -/
def wellPressure (c : ConnectionInput α) : WellDual α := c.bhp + c.head

/-- Cell pressure minus well-bore pressure. -/
def drawdown (c : ConnectionInput α) : WellDual α := WellDual.ofCell c.cell.pressure - c.wellPressure

/-- The inverse volume factors of the cell. -/
def invB (c : ConnectionInput α) : PerPhase (WellDual α) := c.cell.invB.map WellDual.ofCell

/-- The mobilities of the cell. -/
def mobility (c : ConnectionInput α) : PerPhase (WellDual α) := c.cell.mobility.map WellDual.ofCell

/-! ### Flow into the well -/

/-- The rate at which a free phase enters the well. -/
def freeInflow (c : ConnectionInput α) (p : Phase) : WellDual α :=
  c.invB.get p * (c.mobility.get p * c.drawdown * -c.transmissibility)

/-- The rates into the well: free phases and what is dissolved in them. -/
def inflow (c : ConnectionInput α) (phases : PhaseSet) : PerPhase (WellDual α) :=
  let free := phases.select (.ofFn c.freeInflow) (.replicate 0)
  if phases.hasOilAndGas then
    ⟨free.water, free.oil + WellDual.ofCell c.cell.rv * free.gas, free.gas + WellDual.ofCell c.cell.rs * free.oil⟩
  else free

/-! ### Flow out of the well -/

/-- The ratio of two fractions, at most the ratio at saturation; zero without the second. -/
def streamRatio (part whole saturated : WellDual α) : WellDual α :=
  let ratio := if 0 < whole.value then part / whole else 0
  if saturated.value < ratio.value then saturated else ratio

/-- The volume at reservoir conditions of a unit of the well stream.  There is none if dissolved gas and vaporized oil
cancel each other. -/
def streamVolume? (c : ConnectionInput α) (phases : PhaseSet) (pvt : PvtModel α) :
    Except FluidError (Option (WellDual α)) := do
  if phases.hasOilAndGas then
    let rsSat ← pvt.dissolvedGas c.cell.region c.cell.temperature c.wellPressure
    let rvSat ← pvt.vaporizedOil c.cell.region c.cell.temperature c.wellPressure
    let rs := streamRatio c.mix.gas c.mix.oil rsSat
    let rv := streamRatio c.mix.oil c.mix.gas rvSat
    let d := (1 : α) - rv * rs
    if Scalar.abs d.value < 1e-12 then return none
    let free : PerPhase (WellDual α) :=
      ⟨c.mix.water, (c.mix.oil - rv * c.mix.gas) / d, (c.mix.gas - rs * c.mix.oil) / d⟩
    return some (phases.total (.zipWith (· / ·) free c.invB))
  else return some (phases.total (.zipWith (· / ·) c.mix c.invB))

/-- The rates out of the well; none if the well stream has no volume. -/
def outflow (c : ConnectionInput α) (phases : PhaseSet) (pvt : PvtModel α) :
    Outcome α (PerPhase (WellDual α)) := do
  let reservoirRate := phases.total c.mobility * c.drawdown * -c.transmissibility
  match ← Outcome.ofFluid (c.streamVolume? phases pvt) with
  | none => return .replicate 0
  | some volume =>
    if Scalar.abs volume.value < 1e-12 then return .replicate 0
    let rate := reservoirRate / volume
    let q := phases.select (c.mix.map (· * rate)) (.replicate 0)
    if q.toList.all Dual.isFinite then return q
    throw (.numerical .outflowNotFinite)

/-! ### Both directions -/

/-- The surface rates through the connection; injection is positive. -/
def flux (c : ConnectionInput α) (phases : PhaseSet) (pvt : PvtModel α) : Outcome α (PerPhase (WellDual α)) :=
  if 0 < c.drawdown.value then
    if !c.crossFlow && c.type = .injector then .ok (.replicate 0) else .ok (c.inflow phases)
  else if !c.crossFlow && c.type = .producer then .ok (.replicate 0)
  else c.outflow phases pvt

end ConnectionInput

end BlackOilWells
