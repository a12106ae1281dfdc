import BlackOilWells.Economics.Closures
import BlackOilWells.Model.Solve
import BlackOilWells.Model.Potentials
import BlackOilWells.Numeric.Units

/-!
# Scenarios

A scenario describes a snapshot of a reservoir and the wells that drain it, in the units of an input file: pressures in
bar, rates per day, times in days.  `Scenario.build` turns it into a `Simulation`, or says why it cannot.
-/

namespace BlackOilWells

/-- A cell of a scenario. -/
structure CellSpec (α : Type) where
  pressureBar : α
  /-- The mobilities. -/
  mobility : PerPhase α
  /-- The fluid region. -/
  region : Nat
deriving Repr

/-- A control of a scenario. -/
inductive ControlSpec (α : Type) where
  /-- A bottom-hole pressure in bar. -/
  | bhp (bar : α)
  /-- A tubing-head pressure in bar, through a lift table. -/
  | thp (bar : α) (table : Nat) (lift : α)
  /-- A weighted surface rate per day. -/
  | surfaceRate (daily : α) (weights : PerPhase α)
  /-- A weighted reservoir rate per day. -/
  | reservoirRate (daily : α) (weights : PerPhase α)
deriving Repr

/-- The control in the units of the equations. -/
def ControlSpec.control {α : Type} [Scalar α] : ControlSpec α → Control α
  | .bhp bar => ⟨.bhp, Units.pascalOfBar bar, .replicate 0⟩
  | .thp bar table lift => ⟨.thp table lift, Units.pascalOfBar bar, .replicate 0⟩
  | .surfaceRate daily weights => ⟨.surfaceRate, Units.perSecondOfDaily daily, weights⟩
  | .reservoirRate daily weights => ⟨.reservoirRate, Units.perSecondOfDaily daily, weights⟩

/-- A well of a scenario. -/
structure WellSpec (α : Type) where
  name : String
  /-- Whether the well injects or produces. -/
  type : WellType
  /-- The reference depth. -/
  refDepth : α
  /-- The phase that an injector injects. -/
  injectionPhase : Option Phase
  /-- Whether the well permits cross flow. -/
  crossFlow : Bool
  connections : List (Connection α)
  controls : List (ControlSpec α)
  /-- The index of the control to start from. -/
  initialControl : Nat
deriving Repr

/-- Economic limits of a scenario, in effect from a report step onwards. -/
structure LimitSpec (α : Type) where
  well : String
  /-- The first step. -/
  fromStep : Nat
  limits : Limits α
deriving Repr

/-- A member of the group of a scenario. -/
structure MemberSpec (α : Type) where
  well : String
  /-- The control that the group takes over. -/
  groupControl : Option Nat
  /-- The efficiency factor. -/
  efficiency : α
  guideRate : α
deriving Repr

/-- The voidage replacement group of a scenario. -/
structure GroupSpec (α : Type) where
  name : String
  /-- The fraction of the voidage to replace. -/
  fraction : α
  /-- The injected phase. -/
  phase : Phase
  /-- The efficiency factor. -/
  efficiency : α
  members : List (MemberSpec α)
deriving Repr

/-- A snapshot of a reservoir and its wells. -/
structure Scenario (α : Type) where
  /-- The active phases. -/
  phases : PhaseSet
  /-- The reservoir temperature. -/
  temperature : α
  /-- The fluid regions; none stands for a single standard region. -/
  regions : List (FluidRegion α)
  cells : List (CellSpec α)
  wells : List (WellSpec α)
  liftTables : List (LiftTable α)
  /-- The economic limits. -/
  limits : List (LimitSpec α)
  /-- The group, if there is one. -/
  group : Option (GroupSpec α)
  /-- The settings of the well model. -/
  settings : Settings α
  /-- The time step in days. -/
  days : α
deriving Repr

/-- What does not fit together in a scenario. -/
inductive ScenarioCause where
  /-- An injector does not say what it injects. -/
  | noInjectionPhase (well : String)
  /-- There are limits for a well that does not exist. -/
  | limitsForUnknownWell (well : String)
  /-- A group has a member that does not exist. -/
  | unknownMember (group well : String)
deriving DecidableEq, Repr

/-- Why a scenario cannot be simulated. -/
inductive ScenarioError (α : Type) where
  /-- The file cannot be read. -/
  | unreadable
  /-- The file does not hold a scenario. -/
  | unparsable
  /-- The scenario does not fit together. -/
  | inconsistent (cause : ScenarioCause)
  /-- The fluid model was rejected. -/
  | fluid (cause : FluidError)
  /-- An operation on the wells stopped. -/
  | well (fault : Fault α)
deriving Repr

/-- Everything that a simulation of one step needs. -/
structure Simulation (α : Type) where
  cells : List (Cell α)
  /-- The wells. -/
  model : Model α
  /-- The group, if there is one. -/
  group : Option (VoidageGroup α)
  /-- The economic limits. -/
  limits : LimitSchedule α
  /-- The time step in seconds. -/
  dt : α

end BlackOilWells
