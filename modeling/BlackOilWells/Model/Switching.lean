import BlackOilWells.Model.Session

/-!
# Control switching

A well whose state violates a constraint switches to it: the first violated constraint in the order of the list becomes
the current control, and the state moves to its target.

Groups come first.  If voidage has to be replaced, the group learns the voidage of the producers and takes over its
injectors, which move to the control that the group assigns.  A well on its group control is not scanned.  After the
scan the group distributes its targets.
-/

namespace BlackOilWells

variable {α γ : Type} [Scalar α]

namespace Well

/-- The first constraint other than the current control that is violated at given pressures and rates. -/
def firstBroken? (w : Well α) (current : Nat) (bhp thp : α) (rates : PerPhase α) : Option Nat :=
  (w.controls.list.zipIdx.find? fun (c, i) => i != current && c.isBroken w.type bhp thp rates).map (·.2)

/-- The first violated constraint in a state.  The pressures are looked at only if there is another constraint. -/
def scan (w : Well α) (s : Slot α) (current : Nat) : Outcome α (Option Nat) := do
  let rates ← Outcome.need s.rates
  if w.controls.list.zipIdx.any (·.2 != current) then
    let bhp ← Outcome.need s.bhp
    let thp ← Outcome.need s.thp
    return w.firstBroken? current bhp thp rates
  else return none

/-- The control that a well is to be on, and whether that is its group control. -/
def nextControl (w : Well α) (s : Slot α) (groupControl : Option Nat) : Outcome α (Nat × Bool) := do
  let current ← Outcome.need s.control
  if groupControl = some current then return (current, true)
  match ← w.scan s current with
  | some i => return (i, decide (groupControl = some i))
  | none => return (current, false)

end Well

/-! ### Voidage -/

namespace Model

/-- The voidage rate and the voidage coefficients of a well.  Only producers report a voidage. -/
def wellVoidage (converter : RateConverter α) (cells : List (Cell α)) (s : FlowState α) (w : Well α) (index : Nat) :
    Outcome α (α × PerPhase α) := do
  let top ← Outcome.need w.connections.head?
  let cell ← cellAt cells top.cell
  let rates ← Outcome.need (s.slot index).rates
  let coefficients ← Outcome.ofFluid (converter.coefficients rates cell.region)
  return (if w.isProducer then -(rates.weightedSum coefficients) else 0, coefficients)

/-- The voidage rates and the voidage coefficients of all wells. -/
def voidage (m : Model α) (cells : List (Cell α)) (s : FlowState α) : Outcome α (List (α × PerPhase α)) :=
  match m.setup.converter with
  | none => .error (.logic .noConverter)
  | some converter => m.units.zipIdx.mapM fun (u, w) => wellVoidage converter cells s u.well w

end Model

namespace Session

variable [GroupControl α γ]

/-! ### Groups -/

/-- Put an injector that its group has taken over on its group control. -/
def followGroup (u : WellUnit α) (w : Nat) : Step Id α γ Unit := do
  let groups := (← get).groups
  if u.well.isInjector && !GroupControl.isIndividual groups u.well.name then
    match GroupControl.controlIndex groups u.well.name with
    | some i =>
      let _ ← u.well.controls.get i
      onFlow (FlowState.onSlot w (Slot.putControl i))
    | none => return

/-- Tell the group about the voidage and let it take over its injectors. -/
def replaceVoidage (cells : List (Cell α)) : Step Id α γ Unit := do
  let s ← get
  let (voidage, coefficients) := (← s.model.voidage cells s.flow).unzip
  set { s with groups := GroupControl.takeVoidage s.groups voidage coefficients }
  s.model.units.zipIdx.forM fun (u, w) => followGroup u w

/-- Write a target of the group to the well it is for. -/
def takeTarget (t : AssignedTarget α) : Step Id α γ Unit := do
  let s ← get
  match s.model.wells.indexOf? t.well with
  | none => throw (.logic (.unknownGroupTarget t.well))
  | some w => set { s with model := ← s.model.setTarget w t.control t.target }

/-- Let the group distribute its targets. -/
def takeTargets : Step Id α γ Unit := do
  let s ← get
  let (updates, groups) := GroupControl.distribute s.groups s.flow.rates
  set { s with groups := groups }
  updates.forM takeTarget

/-! ### Switching -/

/-- Put a well on a control, and tell the group whether it stands for itself. -/
def putControl (active : Bool) (name : String) (w : Nat) (next : Nat × Bool) : Step Id α γ Unit := do
  onFlow (FlowState.onSlot w (Slot.putControl next.1))
  if active then
    modify fun s => { s with groups := GroupControl.setIndividual s.groups name !next.2 }

omit [GroupControl α γ] in
/-- Report a change of control and move the state to the new target. -/
def followSwitch (previous : List Nat) (w : Nat) : Step Id α γ Unit := do
  let s ← get
  let before ← Attempt.need previous[w]?
  let after ← Attempt.need s.flow.control[w]?
  if before ≠ after then
    let u ← s.model.unit w
    let old ← u.well.controls.get before
    let new ← u.well.controls.get after
    note [.switched u.well.name old.kind new.kind]
    onFlow (s.model.moveToTarget w)

/-- Switch the wells that violate a constraint. -/
def updateControls (cells : List (Cell α)) : Step Id α γ Unit := do
  let s ← get
  s.model.checkState s.flow
  let active := GroupControl.isActive s.groups
  if active && GroupControl.replacesVoidage s.groups then replaceVoidage cells
  let s' ← get
  let groupControl (u : WellUnit α) : Option Nat :=
    if active then GroupControl.controlIndex s'.groups u.well.name else none
  let next ← s.model.units.zipIdx.mapM fun (u, w) =>
    show Outcome α _ from u.well.nextControl (s'.flow.slot w) (groupControl u)
  (s.model.units.zip next).zipIdx.forM fun ((u, next), w) => putControl active u.well.name w next
  if active then takeTargets
  (List.range s.model.units.length).forM (followSwitch s.flow.control)
  onFlow FlowState.countChange

end Session

end BlackOilWells
