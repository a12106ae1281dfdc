import BlackOilWells.Model.Assembly
import BlackOilWells.Model.Convergence
import BlackOilWells.Model.Coupling
import BlackOilWells.Model.Group
import BlackOilWells.Model.Update

/-!
# Sessions

A session is a model at work: the model, the flow state that belongs to it, the groups around it and the notices so
far.  Operations on a session either succeed or stop; in both cases they leave a session behind, and an operation that
stops has not always undone what it did before.

`Step m` also permits reductions over the cooperating processes, as effects of `m`.
-/

namespace BlackOilWells

/-- A model at work. -/
structure Session (α γ : Type) where
  model : Model α
  flow : FlowState α
  groups : γ
  /-- The notices in order. -/
  notices : List (Notice α)

/-- An operation on a session, among other effects. -/
abbrev Step (m : Type → Type) (α γ β : Type) := AttemptT m α (Session α γ) β

/-- The outcome of a solution of the well equations on their own. -/
structure SolveReport where
  /-- Whether the equations were solved; if not, the flow state is what it was before. -/
  converged : Bool
  /-- The number of iterations. -/
  iterations : Nat
deriving DecidableEq, Repr

namespace Session

variable {α γ β : Type}

/-- An operation on the flow state. -/
def onFlow (act : Attempt α (FlowState α) β) : Step Id α γ β := Attempt.zoom (·.flow) ({ · with flow := · }) act

/-- Add notices. -/
def note (ns : List (Notice α)) : Step Id α γ Unit := modify fun s => { s with notices := s.notices ++ ns }

variable [Scalar α]

/-- Take the unknowns of the model from the flow state. -/
def takeUnknowns : Step Id α γ Unit := do
  let s ← get
  set { s with model := ← s.model.setUnknowns s.flow }

/-- Take the efficiencies of the wells from the groups. -/
def takeEfficiencies [GroupControl α γ] : Step Id α γ Unit :=
  modify fun s => { s with model := s.model.setEfficiencies (GroupControl.efficiency s.groups) }

/-- Refresh the densities in the well bores. -/
def refreshDensities (cells : List (Cell α)) : Step Id α γ Unit := do
  let s ← get
  set { s with model := ← s.model.setDensities cells s.flow }

/-- Assemble and eliminate all wells. -/
def assembleWells (cells : List (Cell α)) (dt : α) : Step Id α γ Unit := do
  let model ← onFlow ((← get).model.assemble cells dt)
  modify fun s => { s with model := model }

/-- Apply Newton steps to the flow state. -/
def applyUpdates (updates : List (Vec3 α)) : Step Id α γ Unit := do
  onFlow ((← get).model.applyUpdates updates)

/-- Recover the Newton steps that go with a reservoir update, and apply them. -/
def applyReservoirUpdate (x : List (Vec3 α)) : Step Id α γ Unit := do
  applyUpdates (← (← get).model.recover x)

end Session

end BlackOilWells
