import BlackOilWells.Fluid.Pvt

/-!
# Reservoir cells

What the reservoir simulator supplies for each cell: pressure, volume factors, mobilities and ratios, each with its
derivatives by the unknowns of the cell.  An absent phase has an inverse volume factor of one and no mobility.
-/

namespace BlackOilWells

/-- The fluid state of one reservoir cell. -/
structure Cell (α : Type) where
  /-- The oil-phase pressure. -/
  pressure : CellDual α
  temperature : α
  /-- The inverse formation volume factors. -/
  invB : PerPhase (CellDual α)
  /-- The mobilities: relative permeability over viscosity. -/
  mobility : PerPhase (CellDual α)
  /-- The ratio of dissolved gas to oil. -/
  rs : CellDual α
  /-- The ratio of vaporized oil to gas. -/
  rv : CellDual α
  /-- The fluid region of the cell. -/
  region : Nat

namespace Cell

variable {α : Type} [Scalar α]

/-- A cell without mobile phases. -/
def still (pressure : CellDual α) (temperature : α) : Cell α where
  pressure := pressure
  temperature := temperature
  invB := .replicate (.const 1)
  mobility := .replicate (.const 0)
  rs := .const 0
  rv := .const 0
  region := 0

/-- The saturated cell at a pressure.  The pressure is the first cell unknown; volume factors and ratios take their
derivatives from the fluid model.  Without a partner phase a hydrocarbon phase has nothing dissolved in it. -/
def saturated (pvt : PvtModel α) (phases : PhaseSet) (pressure temperature : α) (mobility : PerPhase α)
    (region : Nat) : Except FluidError (Cell α) := do
  if ¬(Scalar.isFinite pressure ∧ 0 < pressure) then throw (.nonPhysical "cell pressure")
  let p : WellDual α := .seed pressure 0
  let ratio := if phases.hasOilAndGas then none else some (.const 0)
  let cell := { still (WellDual.toCell p) temperature with region := region }
  let invB ← PerPhase.ofFnM fun phase =>
    if phases.isActive phase then
      WellDual.toCell <$> pvt.inverseFvf phase region temperature p ratio
    else pure (cell.invB.get phase)
  let mobile := phases.select (mobility.map .const) cell.mobility
  let cell := { cell with invB := invB, mobility := mobile }
  if phases.hasOilAndGas then
    let rs ← pvt.dissolvedGas region temperature p
    let rv ← pvt.vaporizedOil region temperature p
    return { cell with rs := WellDual.toCell rs, rv := WellDual.toCell rv }
  return cell

end Cell

end BlackOilWells
