import BlackOilWells.Fluid.Pvt

/-!
# Voidage coefficients

Coefficients that turn surface volume rates into a reservoir volume rate: the voidage is the sum over the phases of
coefficient times surface rate.  `RegionConverter` evaluates them at one representative pressure per fluid region; with
both hydrocarbon phases present it inverts the exchange of dissolved gas and vaporized oil at the ratios of the rates
themselves, capped at saturation.
-/

namespace BlackOilWells

/-- A source of voidage coefficients: from the surface rates and the fluid region of a well. -/
structure RateConverter (α : Type) where
  coefficients : PerPhase α → Nat → Except FluidError (PerPhase α)

/-- Voidage coefficients from a fluid model at one pressure per region. -/
structure RegionConverter (α : Type) where
  /-- The fluid model. -/
  pvt : PvtModel α
  /-- The active phases. -/
  phases : PhaseSet
  /-- The representative pressure of each region. -/
  pressures : List α
  temperature : α

namespace RegionConverter

variable {α : Type}

/-- A converter, if there is one pressure for each region. -/
def create (pvt : PvtModel α) (phases : PhaseSet) (pressures : List α) (temperature : α) :
    Except FluidError (RegionConverter α) :=
  if pressures.length = pvt.regions then .ok ⟨pvt, phases, pressures, temperature⟩
  else .error (.invalid "one average pressure per PVT region is required")

/-- Replace the pressure of a region. -/
def setPressure (c : RegionConverter α) (region : Nat) (pressure : α) : Except FluidError (RegionConverter α) :=
  if region < c.pressures.length then .ok { c with pressures := c.pressures.set region pressure }
  else .error (.regionOutOfRange region c.pressures.length)

variable [Scalar α]

/-- The ratio of `part` to `whole`, capped; zero without any `whole`. -/
def cappedRatio (part whole cap : α) : α := if 0 < whole then Scalar.min (part / whole) cap else 0

/-- The coefficient of a hydrocarbon phase that is present without its partner. -/
def deadCoefficient (c : RegionConverter α) (region : Nat) (p : WellDual α) (phase : Phase) :
    Except FluidError α :=
  if c.phases.isActive phase then do
    let b ← c.pvt.inverseFvf phase region c.temperature p (some (.const 0))
    return 1 / b.value
  else return 0

/-- The coefficients of oil and gas at rates that exchange dissolved gas and vaporized oil. -/
def liveCoefficients (c : RegionConverter α) (region : Nat) (p : WellDual α) (rates : PerPhase α) :
    Except FluidError (α × α) := do
  let oil := Scalar.abs rates.oil
  let gas := Scalar.abs rates.gas
  let rsMax ← c.pvt.dissolvedGas region c.temperature p
  let rvMax ← c.pvt.vaporizedOil region c.temperature p
  let rs := cappedRatio gas oil rsMax.value
  let rv := cappedRatio oil gas rvMax.value
  let bo ← c.pvt.inverseFvf .oil region c.temperature p (some (.const rs))
  let bg ← c.pvt.inverseFvf .gas region c.temperature p (some (.const rv))
  let d := 1 - rs * rv
  if Scalar.abs d < 2.220446049250313e-16 then throw (.nonPhysical "rs*rv close to one")
  return ((1 / bo.value - rs / bg.value) / d, (1 / bg.value - rv / bo.value) / d)

/-- The voidage coefficients at surface rates in a region. -/
def coefficients (c : RegionConverter α) (rates : PerPhase α) (region : Nat) :
    Except FluidError (PerPhase α) := do
  let pressure ← match c.pressures[region]? with
    | some p => pure p
    | none => throw (.regionOutOfRange region c.pressures.length)
  let p : WellDual α := .const pressure
  let water ←
    if c.phases.water then do
      let b ← c.pvt.inverseFvf .water region c.temperature p none
      pure (1 / b.value)
    else pure 0
  if c.phases.hasOilAndGas then
    let (oil, gas) ← c.liveCoefficients region p rates
    return ⟨water, oil, gas⟩
  else
    let oil ← c.deadCoefficient region p .oil
    let gas ← c.deadCoefficient region p .gas
    return ⟨water, oil, gas⟩

/-- The converter as a source of coefficients. -/
def converter (c : RegionConverter α) : RateConverter α := ⟨c.coefficients⟩

end RegionConverter

end BlackOilWells
