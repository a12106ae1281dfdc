import BlackOilWells.Model.Basic
import BlackOilWells.Model.Journal
import BlackOilWells.Model.Processes

/-!
# Convergence of the well equations

The residual of each phase, scaled by the average formation volume factor of all cells of all processes, is compared
with the tolerance.  A residual that is not finite or too large stops the step on every process.
-/

namespace BlackOilWells

variable {m : Type → Type} [Monad m] {α : Type} [Scalar α]

namespace Convergence

omit [Monad m] in
/-- The sum of the formation volume factors of the active phases over the cells of this process. -/
def factorSums (phases : PhaseSet) (cells : List (Cell α)) : PerPhase α :=
  cells.foldl (fun acc c =>
    phases.select (.zipWith (fun b (inv : CellDual α) => b + 1 / inv.value) acc c.invB) acc) (.replicate 0)

omit [Monad m] in
/-- The largest finite residual of each phase in the systems of this process. -/
def largestResiduals (phases : PhaseSet) (systems : List (WellSystem α)) : PerPhase α :=
  systems.foldl (fun acc s =>
    phases.select
      (.zipWith (fun most r => if Scalar.isFinite r then Scalar.max most (Scalar.abs r) else most) acc
        (.ofVec s.residual)) acc) (.replicate 0)

omit [Monad m] in
/-- Whether an active residual of this process is not finite. -/
def hasBadResidual (phases : PhaseSet) (systems : List (WellSystem α)) : Bool :=
  systems.any fun s => phases.active.any fun p => !Scalar.isFinite ((PerPhase.ofVec s.residual).get p)

/-- Apply a reduction to the active phases in order; the other entries stay. -/
def reduceActive (phases : PhaseSet) (f : α → m α) (q : PerPhase α) : m (PerPhase α) :=
  PerPhase.ofFnM fun p => if phases.isActive p then f (q.get p) else pure (q.get p)

/-- The average formation volume factors over all processes. -/
def averageFactors (comm : Communicator m α) (phases : PhaseSet) (cells : List (Cell α)) : m (PerPhase α) := do
  let count ← comm.sum (cells.length : α)
  PerPhase.ofFnM fun p => do
    let total ← comm.sum ((factorSums phases cells).get p)
    return if 0 < count then total / count else 1

omit [Monad m] in
/-- The verdict on scaled residuals: stop at the first active phase whose residual is bad or too large, and otherwise
say whether all are within the tolerance. -/
def verdict (setup : Setup α) (anyBad : Bool) (norms : PerPhase α) : Outcome α Bool := do
  setup.phases.active.forM fun p => do
    if anyBad || !Scalar.isFinite (norms.get p) then throw (.numerical (.residualNotFinite p))
    if setup.settings.maxResidual < norms.get p then throw (.numerical (.residualTooLarge p))
  return setup.phases.active.all fun p => decide (norms.get p < setup.settings.tolerance)

omit [Monad m] in
/-- The notices of a check. -/
def notices (phases : PhaseSet) (iteration : Nat) (norms : PerPhase α) : List (Notice α) :=
  (if iteration = 0 then [.normHeading phases.active] else []) ++ [.norms iteration (phases.active.map norms.get)]

end Convergence

/-- Whether the model reports to a terminal on this process. -/
def Model.reports (model : Model α) (comm : Communicator m α) : Bool :=
  model.setup.settings.terminalOutput && comm.isFirst

open Convergence in
/-- Check the residuals of all wells, and report them. -/
def Model.convergence (model : Model α) (comm : Communicator m α) (cells : List (Cell α)) (iteration : Nat) :
    m (Outcome α (Bool × List (Notice α))) := do
  let phases := model.setup.phases
  let systems := model.units.map (·.system)
  let factors ← averageFactors comm phases cells
  let anyBad ← comm.max (if hasBadResidual phases systems then 1 else 0)
  let largest ← reduceActive phases comm.max (largestResiduals phases systems)
  let norms := PerPhase.zipWith (· * ·) factors largest
  return do
    let converged ← verdict model.setup (0 < anyBad) norms
    return (converged, if model.reports comm then notices phases iteration norms else [])

end BlackOilWells
