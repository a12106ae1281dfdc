import BlackOilWells.Well.Topology

/-!
# Well unknowns

Each well has three unknowns: a leading one, which is a rate under pressure control and the bottom-hole pressure under
rate control, and the water and gas fractions of the well stream; oil closes the fractions.  `closeFractions` returns
fractions that are not negative and sum to one, and `Well.encode` derives the unknowns from rates, bottom-hole pressure
and control.
-/

namespace BlackOilWells

/-- The unknowns of one well. -/
structure Unknowns (α : Type) where
  /-- A rate under pressure control, the bottom-hole pressure under rate control. -/
  lead : α
  /-- The water fraction of the well stream. -/
  water : α
  /-- The gas fraction of the well stream. -/
  gas : α
deriving Repr

namespace Unknowns

variable {α : Type}

/-- The unknowns in order. -/
def toVec (u : Unknowns α) : Vec3 α := ⟨u.lead, u.water, u.gas⟩

/-- The unknowns of a vector. -/
def ofVec (v : Vec3 α) : Unknowns α := ⟨v.x, v.y, v.z⟩

@[simp] theorem ofVec_toVec (u : Unknowns α) : ofVec u.toVec = u := rfl

end Unknowns

variable {α : Type} [Scalar α]

/-! ### Fractions -/

/-- Set a negative fraction to zero and rescale the others, so that the sum does not change. -/
def dropNegative (f : PerPhase α) (p : Phase) : PerPhase α :=
  if f.get p < 0 then
    let scale := 1 - f.get p
    .ofFn fun r => if r = p then 0 else f.get r / scale
  else f

/-- Close the fractions with oil and remove negative ones, first water, then gas, then oil. -/
def closeFractions (phases : PhaseSet) (water gas : α) : PerPhase α :=
  let w := if phases.water then water else 0
  let g := if phases.gas then gas else 0
  dropNegative (dropNegative (dropNegative ⟨w, 1 - w - g, g⟩ .water) .gas) .oil

/-! ### From rates to unknowns -/

namespace Well

/-- The fraction of a phase in scaled rates; without any flow that of the composition. -/
def streamFraction (w : Well α) (phases : PhaseSet) (scale rates : PerPhase α) (p : Phase) : α :=
  let total := scale.weightedSum rates
  if phases.isActive p then
    if total == 0 then w.composition.get p else scale.get p * rates.get p / total
  else 0

/-- The leading unknown; only rate control looks at the bottom-hole pressure. -/
def leadUnknown (w : Well α) (control : Control α) (rates : PerPhase α) (bhp : Outcome α α) : Outcome α α :=
  if control.kind.isPressure then
    .ok (if w.isInjector then rates.weightedSum w.composition else control.fractionScale.weightedSum rates)
  else bhp

/-- The unknowns that belong to rates and a bottom-hole pressure under a control. -/
def encode (w : Well α) (phases : PhaseSet) (control : Control α) (rates : PerPhase α) (bhp : Outcome α α) :
    Outcome α (Unknowns α) := do
  let lead ← w.leadUnknown control rates bhp
  let scale := control.fractionScale
  let f := closeFractions phases (w.streamFraction phases scale rates .water)
    (w.streamFraction phases scale rates .gas)
  let lead ← Outcome.finite lead "well rate or bhp unknown"
  let water ← Outcome.finite f.water "well water fraction"
  let gas ← Outcome.finite f.gas "well gas fraction"
  return ⟨lead, water, gas⟩

end Well

end BlackOilWells
