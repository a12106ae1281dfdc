import BlackOilWells.Fluid.Error
import BlackOilWells.Fluid.Phase
import BlackOilWells.Numeric.Coupled

/-!
# Fluid property models

`PvtModel` is what the wells ask of the fluid: surface densities, inverse formation volume factors and the saturated
gas-oil and oil-gas ratios.  Pressures are differentiable, so that properties evaluated at well-bore pressure carry
derivatives by the well unknowns.

`FluidRegions` is an analytic model with these properties: liquids of constant compressibility, a gas whose inverse
volume factor is proportional to pressure, and saturation ratios that grow linearly with pressure up to a cap.
-/

namespace BlackOilWells

/-- The fluid properties that the well model evaluates, region by region. -/
structure PvtModel (α : Type) where
  /-- The name of the model. -/
  name : String
  /-- The number of regions. -/
  regions : Nat
  /-- The density of a phase at surface conditions. -/
  surfaceDensity : Phase → Nat → Except FluidError α
  /-- The inverse formation volume factor of a phase in a region at a temperature and pressure.  The ratio is that of
  dissolved gas for oil and of vaporized oil for gas; without one the phase is saturated. -/
  inverseFvf : Phase → Nat → α → WellDual α → Option (WellDual α) → Except FluidError (WellDual α)
  /-- The ratio of dissolved gas to oil at saturation. -/
  dissolvedGas : Nat → α → WellDual α → Except FluidError (WellDual α)
  /-- The ratio of vaporized oil to gas at saturation. -/
  vaporizedOil : Nat → α → WellDual α → Except FluidError (WellDual α)

/-- The property parameters of one fluid region. -/
structure FluidRegion (α : Type) where
  /-- Surface densities. -/
  surfaceDensity : PerPhase α
  /-- The pressure at which the reference volume factors apply. -/
  referencePressure : α
  /-- Inverse formation volume factors at the reference pressure. -/
  inverseFvfRef : PerPhase α
  /-- Compressibilities of the liquids; the entry of gas is not used. -/
  compressibility : PerPhase α
  /-- The slope of the saturated gas-oil ratio. -/
  rsSlope : α
  /-- The cap of the saturated gas-oil ratio. -/
  rsMax : α
  /-- The slope of the saturated oil-gas ratio. -/
  rvSlope : α
  /-- The cap of the saturated oil-gas ratio. -/
  rvMax : α
  /-- The growth of oil volume per unit of dissolved gas. -/
  oilSwelling : α
  /-- The growth of gas volume per unit of vaporized oil. -/
  gasSwelling : α
deriving Repr

variable {α : Type} [Scalar α]

/-- A light oil with water and gas. -/
def FluidRegion.standard : FluidRegion α where
  surfaceDensity := ⟨1000.0, 800.0, 0.9⟩
  referencePressure := 1.0e7
  inverseFvfRef := ⟨1, 1 / 1.2, 100.0⟩
  compressibility := ⟨4.0e-10, 1.0e-9, 0⟩
  rsSlope := 1.0e-5
  rsMax := 200.0
  rvSlope := 1.0e-11
  rvMax := 5.0e-4
  oilSwelling := 2.0e-3
  gasSwelling := 0

/-- Fluid regions with analytic properties. -/
structure FluidRegions (α : Type) where
  /-- The parameters of each region. -/
  regions : List (FluidRegion α)

namespace FluidRegions

/-- The regions, if there is at least one and each has positive reference values. -/
def ofList (regions : List (FluidRegion α)) : Except FluidError (FluidRegions α) := do
  if regions.isEmpty then throw (.invalid "at least one PVT region is required")
  regions.forM fun r => do
    if r.referencePressure ≤ 0 then throw (.nonPhysical "reference pressure")
    if r.inverseFvfRef.toList.any (· ≤ 0) then throw (.nonPhysical "reference inverse formation volume factor")
  return ⟨regions⟩

omit [Scalar α] in
/-- The parameters of a region. -/
def region (f : FluidRegions α) (i : Nat) : Except FluidError (FluidRegion α) :=
  match f.regions[i]? with
  | some r => .ok r
  | none => .error (.regionOutOfRange i f.regions.length)

/-- Refuse a pressure that is not positive and finite. -/
def checkPressure (p : WellDual α) : Except FluidError Unit :=
  if Scalar.isFinite p.value ∧ 0 < p.value then .ok () else .error (.nonPhysical "pressure")

/-- The saturated gas-oil ratio. -/
def dissolvedGas (f : FluidRegions α) (region : Nat) (_temperature : α) (p : WellDual α) :
    Except FluidError (WellDual α) := do
  checkPressure p
  let r ← f.region region
  return (p * r.rsSlope).min (.const r.rsMax)

/-- The saturated oil-gas ratio. -/
def vaporizedOil (f : FluidRegions α) (region : Nat) (_temperature : α) (p : WellDual α) :
    Except FluidError (WellDual α) := do
  checkPressure p
  let r ← f.region region
  return (p * r.rvSlope).min (.const r.rvMax)

/-- The inverse volume factor of a liquid before swelling. -/
def liquid (r : FluidRegion α) (phase : Phase) (p : WellDual α) : WellDual α :=
  ((1 : α) + (p - r.referencePressure) * r.compressibility.get phase) * r.inverseFvfRef.get phase

/-- The inverse formation volume factor; it must be positive and finite. -/
def inverseFvf (f : FluidRegions α) (phase : Phase) (region : Nat) (temperature : α) (p : WellDual α)
    (ratio : Option (WellDual α)) : Except FluidError (WellDual α) := do
  checkPressure p
  let r ← f.region region
  let b ← match phase with
    | .water => pure (liquid r .water p)
    | .oil => do
      let rs ← match ratio with
        | some rs => pure rs
        | none => f.dissolvedGas region temperature p
      pure (liquid r .oil p / ((1 : α) + rs * r.oilSwelling))
    | .gas => do
      let rv ← match ratio with
        | some rv => pure rv
        | none => f.vaporizedOil region temperature p
      pure (p / r.referencePressure * r.inverseFvfRef.gas / ((1 : α) + rv * r.gasSwelling))
  if Scalar.isFinite b.value ∧ 0 < b.value then return b
  throw (.nonPhysical "inverse formation volume factor")

/-- The analytic model of the regions. -/
def model (f : FluidRegions α) : PvtModel α where
  name := "analytic-black-oil"
  regions := f.regions.length
  surfaceDensity phase region := (f.region region).map (·.surfaceDensity.get phase)
  inverseFvf := f.inverseFvf
  dissolvedGas := f.dissolvedGas
  vaporizedOil := f.vaporizedOil

end FluidRegions

end BlackOilWells
