import BlackOilWells.Numeric.Stride
import BlackOilWells.Well.Control

/-!
# Group control

The well model does not own the tree of groups.  Through `GroupControl` it asks whether a group has taken over a well,
tells the group about voidage and control changes and receives targets.  Without any group (`none`) all wells stand for
themselves.

A `VoidageGroup` makes its injectors replace a fraction of the reservoir volume that its producers take out.  The volume
is split over the injectors under the group by their guide rates, and each share becomes a surface rate through the
voidage coefficient of the injector.
-/

namespace BlackOilWells

/-- A new target for a control of a well. -/
structure AssignedTarget (α : Type) where
  /-- The name of the well. -/
  well : String
  /-- The index of the control. -/
  control : Nat
  target : α

/-- What the well model asks of a collection of groups.  Lists over the wells follow the order of the model. -/
class GroupControl (α : outParam Type) (γ : Type) where
  /-- Whether any group constraint is in effect. -/
  isActive : γ → Bool
  /-- Whether a voidage target has to be refreshed in each iteration. -/
  replacesVoidage : γ → Bool
  /-- The index of the control that the group assigns to a well. -/
  controlIndex : γ → String → Option Nat
  /-- Whether a well stands for itself. -/
  isIndividual : γ → String → Bool
  /-- Set whether a well stands for itself. -/
  setIndividual : γ → String → Bool → γ
  /-- The product of the efficiency factors from a well up to the top group. -/
  efficiency : γ → String → α
  /-- Take note of the voidage rate and of the voidage coefficients of each well. -/
  takeVoidage : γ → List α → List (PerPhase α) → γ
  /-- Distribute the group targets over the wells under the group, at given well rates. -/
  distribute : γ → List α → List (AssignedTarget α) × γ
  /-- Whether the wells under the group meet its target, at given well rates. -/
  isOnTarget : γ → List α → Bool

/-- Groups that may be absent.  Without groups every well stands for itself at full efficiency. -/
instance {α γ : Type} [Scalar α] [GroupControl α γ] : GroupControl α (Option γ) where
  isActive g := g.any GroupControl.isActive
  replacesVoidage g := g.any GroupControl.replacesVoidage
  controlIndex g well := g.bind (GroupControl.controlIndex · well)
  isIndividual g well := g.all (GroupControl.isIndividual · well)
  setIndividual g well b := g.map (GroupControl.setIndividual · well b)
  efficiency g well := g.elim 1 (GroupControl.efficiency · well)
  takeVoidage g voidage coefficients := g.map (GroupControl.takeVoidage · voidage coefficients)
  distribute g rates := match g with
    | some g => let (updates, g) := GroupControl.distribute g rates; (updates, some g)
    | none => ([], none)
  isOnTarget g rates := g.all (GroupControl.isOnTarget · rates)

/-! ### Voidage replacement -/

/-- A well of a voidage replacement group. -/
structure GroupMember (α : Type) where
  /-- The name of the well. -/
  well : String
  /-- The index of the well in the model. -/
  index : Nat
  /-- Whether the well injects or produces. -/
  type : WellType
  /-- The control that the group takes over; without one the well stands for itself. -/
  groupControl : Option Nat
  /-- The efficiency factor of the well. -/
  efficiency : α
  /-- The share in the group target, relative to the other injectors. -/
  guideRate : α
  /-- Whether the well stands for itself. -/
  individual : Bool
deriving Repr

/-- A group whose injectors replace a fraction of the produced voidage. -/
structure VoidageGroup (α : Type) where
  /-- The name of the group. -/
  name : String
  /-- The fraction of the voidage to replace. -/
  fraction : α
  /-- The efficiency factor of the group. -/
  efficiency : α
  /-- The injected phase. -/
  phase : Phase
  /-- The tolerance on the injected voidage, relative to the target. -/
  tolerance : α
  members : List (GroupMember α)
  /-- The reservoir volume rate that the injectors have to inject. -/
  reservoirTarget : α
  /-- The voidage coefficients of the wells. -/
  coefficients : List (PerPhase α)
deriving Repr

namespace GroupMember

variable {α : Type}

/-- Whether the group may take over the well: an injector with a group control. -/
def isEligible (m : GroupMember α) : Bool := m.type = .injector && m.groupControl.isSome

/-- Whether the well is an injector under the group. -/
def isLed (m : GroupMember α) : Bool := m.isEligible && !m.individual

end GroupMember

namespace VoidageGroup

variable {α : Type} [Scalar α]

/-- A group without members. -/
def create (name : String) (fraction : α) (phase : Phase) : VoidageGroup α :=
  ⟨name, fraction, 1, phase, 1.0e-3, [], 0, []⟩

omit [Scalar α] in
/-- The first member for a well. -/
def member? (g : VoidageGroup α) (well : String) : Option (GroupMember α) := g.members.find? (·.well == well)

omit [Scalar α] in
/-- The injectors under the group. -/
def led (g : VoidageGroup α) : List (GroupMember α) := g.members.filter (·.isLed)

omit [Scalar α] in
/-- Change the flag of the first member for a well. -/
def setFlag (well : String) (individual : Bool) : List (GroupMember α) → List (GroupMember α)
  | [] => []
  | m :: ms => if m.well == well then { m with individual } :: ms else m :: setFlag well individual ms

/-- The voidage coefficient of a well for the injected phase; zero for a well without coefficients. -/
def coefficient (g : VoidageGroup α) (index : Nat) : α := (g.coefficients[index]?.map (·.get g.phase)).getD 0

/-- The voidage of the producers in the group. -/
def produced (g : VoidageGroup α) (voidage : List α) : α :=
  Scalar.sum ((g.members.filter (·.type = .producer)).map fun m => voidage[m.index]?.getD 0 * m.efficiency)

/-- Set the target from the voidage of the producers and take over the injectors. -/
def takeVoidage (g : VoidageGroup α) (voidage : List α) (coefficients : List (PerPhase α)) : VoidageGroup α :=
  { g with
    reservoirTarget := g.fraction * g.produced voidage * g.efficiency
    coefficients
    members := g.members.map fun m => if m.isEligible then { m with individual := false } else m }

/-- The target of an injector under the group, if it has a control to take over and a positive coefficient. -/
def targetOf? (g : VoidageGroup α) (totalGuide : α) (m : GroupMember α) : Option (AssignedTarget α) :=
  m.groupControl.bind fun control =>
    let coefficient := g.coefficient m.index
    if coefficient ≤ 0 then none
    else
      let share := g.reservoirTarget * m.guideRate / totalGuide
      some ⟨m.well, control, share / (coefficient * m.efficiency * g.efficiency)⟩

/-- The targets of the injectors under the group, in proportion to their guide rates. -/
def targets (g : VoidageGroup α) : List (AssignedTarget α) :=
  let totalGuide := Scalar.sum (g.led.map (·.guideRate))
  if totalGuide ≤ 0 then [] else g.led.filterMap (g.targetOf? totalGuide)

/-- The reservoir volume rate that the injectors under the group inject at given well rates. -/
def injected (g : VoidageGroup α) (rates : List α) : α :=
  g.led.foldl (fun acc m =>
    acc + rates[3 * m.index + g.phase.index]?.getD 0 * g.coefficient m.index * m.efficiency * g.efficiency) 0

/-- Whether the injectors under the group inject the target volume, or there are none. -/
def isOnTarget (g : VoidageGroup α) (rates : List α) : Bool :=
  g.led.isEmpty ||
    decide (Scalar.abs (g.injected rates - g.reservoirTarget) ≤
      g.tolerance * Scalar.max (Scalar.abs g.reservoirTarget) 1.0e-12)

instance : GroupControl α (VoidageGroup α) where
  isActive _ := true
  replacesVoidage _ := true
  controlIndex g well := (g.member? well).bind (·.groupControl)
  isIndividual g well := (g.member? well).all (·.individual)
  setIndividual g well b := { g with members := setFlag well b g.members }
  efficiency g well := (g.member? well).elim 1 fun m => m.efficiency * g.efficiency
  takeVoidage := takeVoidage
  distribute g _ := (g.targets, g)
  isOnTarget := isOnTarget

end VoidageGroup

end BlackOilWells
