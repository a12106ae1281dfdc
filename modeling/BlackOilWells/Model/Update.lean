import BlackOilWells.Model.Relations

/-!
# Updates of the well state

`WellUnit.applyUpdate` applies a Newton step to the unknowns of a well and derives rates and pressures from them, so
that the state is on the target of the current control.  `WellUnit.moveToTarget` goes the other way: after a change of
control it moves rates and pressures to the new target and derives the unknowns.  Both keep the tubing-head pressure in
step.
-/

namespace BlackOilWells

variable {α : Type} [Scalar α]

namespace WellUnit

/-! ### Tubing-head pressure -/

/-- Keep the tubing-head pressure in step: the target under a tubing-head control, and otherwise the pressure that the
first tubing-head constraint implies. -/
def updateThp (u : WellUnit α) (setup : Setup α) (control : Control α) : Attempt α (Slot α) Unit :=
  match control.kind with
  | .thp _ _ => Slot.putThp control.target
  | _ =>
    match u.well.controls.firstLift? with
    | none => pure ()
    | some (table, _) => do
      let s ← get
      let rates ← Attempt.need s.rates
      let bhp ← Attempt.need s.bhp
      Slot.putThp (← u.thpOfBhp setup table rates bhp)

/-! ### Newton steps -/

/-- The fractions after a step of bounded size. -/
def stepFractions (setup : Setup α) (old : Unknowns α) (dx : Vec3 α) : PerPhase α :=
  let step (x d : α) : α := x - Scalar.boundedStep d setup.settings.maxFractionChange
  closeFractions setup.phases (if setup.phases.water then step old.water dx.y else 0)
    (if setup.phases.gas then step old.gas dx.z else 0)

/-- The leading unknown after a step.  A bottom-hole pressure changes by a bounded part of itself and stays above the
least pressure. -/
def stepLead (setup : Setup α) (control : Control α) (old : Unknowns α) (dx : Vec3 α) : α :=
  if control.kind.isPressure then old.lead - dx.x
  else
    let most := Scalar.abs old.lead * setup.settings.maxBhpChange
    Scalar.max (old.lead - Scalar.boundedStep dx.x most) setup.settings.minBhp

/-- Active fractions in units of the scaling of a control; zero where the scaling is zero. -/
def unscaled (phases : PhaseSet) (control : Control α) (fractions : PerPhase α) : PerPhase α :=
  phases.select
    (.zipWith (fun g f => if g == 0 then 0 else f / g) control.fractionScale fractions) (.replicate 0)

/-- The rates that belong to a leading unknown and scaled fractions under a control. -/
def ratesOf (w : Well α) (phases : PhaseSet) (control : Control α) (lead : α) (scaled old : PerPhase α) : PerPhase α :=
  match control.kind with
  | .bhp | .thp _ _ =>
    phases.select (if w.isInjector then w.composition.map (· * lead) else scaled.map (lead * ·)) old
  | .surfaceRate =>
    if w.isInjector then w.composition.map (· * control.target)
    else
      let total := phases.sum (.zipWith (· * ·) control.weights scaled)
      if total == 0 then old else phases.select (scaled.map (· * control.target / total)) old
  | .reservoirRate => phases.select (scaled.map (· * control.target)) old

/-- The bottom-hole pressure that belongs to rates and a leading unknown under a control. -/
def bhpOf (u : WellUnit α) (setup : Setup α) (control : Control α) (lead : α) (rates : PerPhase α) : Outcome α α :=
  match control.kind with
  | .bhp => .ok control.target
  | .thp table _ => do
    let bhp ← u.bhpOfThp setup table (rates.map .const) control.target
    return bhp.value
  | .surfaceRate | .reservoirRate => .ok lead

/-- Apply a Newton step: subtract it from the unknowns, within bounds, and refresh rates and pressures. -/
def applyUpdate (u : WellUnit α) (setup : Setup α) (dx : Vec3 α) : Attempt α (Slot α) Unit := do
  if ¬dx.all Scalar.isFinite then throw (.numerical (.updateNotFinite u.well.name))
  let s ← get
  let control ← s.currentControl u.well
  let old ← Attempt.need s.unknowns
  let f := stepFractions setup old dx
  let lead := stepLead setup control old dx
  let rates := ratesOf u.well setup.phases control lead (unscaled setup.phases control f) (← Attempt.need s.rates)
  Slot.putBhp (← u.bhpOf setup control lead rates)
  Slot.putUnknowns ⟨lead, f.water, f.gas⟩
  Slot.putRates rates
  u.updateThp setup control

/-! ### Changes of control -/

/-- The rates on the target of a surface rate control.  A producer can be moved only if a single phase is weighted. -/
def targetRates (w : Well α) (control : Control α) (old : PerPhase α) : PerPhase α :=
  if w.isInjector then w.composition.map (control.target * ·)
  else if control.weighted.length = 1 then
    .zipWith (fun d q => if 0 < d then control.target / d else q) control.weights old
  else old

/-- Move rates and pressures to the target of the current control and derive the unknowns.  Under a reservoir rate
control the rates are kept to start from. -/
def moveToTarget (u : WellUnit α) (setup : Setup α) : Attempt α (Slot α) Unit := do
  let s ← get
  let control ← s.currentControl u.well
  match control.kind with
  | .bhp => Slot.putBhp control.target
  | .thp table _ => do
    let rates ← Attempt.need s.rates
    let bhp ← u.bhpOfThp setup table (rates.map .const) control.target
    Slot.putBhp bhp.value
    Slot.putThp control.target
  | .reservoirRate => pure ()
  | .surfaceRate => do
    let rates ← Attempt.need s.rates
    Slot.putRates (targetRates u.well control rates)
  Slot.seed setup.phases u.well

end WellUnit

namespace Model

/-- Apply Newton steps to all wells. -/
def applyUpdates (m : Model α) (updates : List (Vec3 α)) : Attempt α (FlowState α) Unit := do
  m.checkState (← get)
  if updates.length != m.units.length then throw (.logic (.updateCount updates.length m.units.length))
  (m.units.zip updates).zipIdx.forM fun ((u, dx), w) => FlowState.onSlot w (u.applyUpdate m.setup dx)
  FlowState.countChange

/-- Move the state of a well to the target of its current control. -/
def moveToTarget (m : Model α) (w : Nat) : Attempt α (FlowState α) Unit := do
  let u ← m.unit w
  FlowState.onSlot w (u.moveToTarget m.setup)

end Model

end BlackOilWells
