import BlackOilWells.Model.Switching

/-!
# Solution of the well equations

`Session.solve` iterates assembly, convergence check and update with the reservoir held fixed, and goes back to the
flow state on entry unless it converges.  `Session.assemble` prepares the wells for an iteration of the reservoir: it
switches controls, refreshes what belongs to the start of a time step, solves the well equations on their own if the
settings ask for it, and assembles.
-/

namespace BlackOilWells

variable {m : Type → Type} [Monad m] {α γ : Type} [Scalar α] [GroupControl α γ]

namespace Session

/-- Check the residuals and report them. -/
def check (comm : Communicator m α) (cells : List (Cell α)) (iteration : Nat) : Step m α γ Bool := do
  let s ← get
  let outcome ← s.model.convergence (m := m) comm cells iteration
  let (converged, notices) ← outcome
  Attempt.lift (note notices)
  return converged

omit [Monad m] in
/-- Whether the wells under group control meet the target of their group. -/
def isGroupOnTarget (s : Session α γ) : Bool :=
  !GroupControl.isActive s.groups || GroupControl.isOnTarget s.groups s.flow.rates

omit [Monad m] in
/-- Apply the Newton steps of the wells and switch controls. -/
def advance (cells : List (Cell α)) : Step Id α γ Unit := do
  applyUpdates (← (← get).model.wellUpdates)
  updateControls cells
  takeUnknowns

/-- Iterate until the well equations are solved, for a limited number of iterations. -/
def iterate (comm : Communicator m α) (cells : List (Cell α)) (dt : α) :
    (remaining iteration : Nat) → Step m α γ SolveReport
  | 0, iteration => return ⟨false, iteration⟩
  | remaining + 1, iteration => do
    Attempt.lift (assembleWells cells dt)
    let converged ← check comm cells iteration
    if converged && (← get).isGroupOnTarget then return ⟨true, iteration⟩
    Attempt.lift (advance cells)
    iterate comm cells dt remaining (iteration + 1)

omit [Monad m] [GroupControl α γ] in
/-- Go back to a flow state. -/
def restore (flow : FlowState α) : Step Id α γ Unit := do
  modify fun s => { s with flow := flow }
  takeUnknowns

/-- Solve the well equations with the reservoir held fixed.  Unless that succeeds, the flow state is restored. -/
def solve (comm : Communicator m α) (cells : List (Cell α)) (dt : α) : Step m α γ SolveReport := do
  let s ← get
  try
    let report ← iterate comm cells dt s.model.setup.settings.maxLocalIterations 0
    if report.converged then Attempt.lift (note [.localSolveConverged report.iterations])
    else Attempt.lift do
      note [.localSolveFailed report.iterations]
      restore s.flow
    return report
  catch e =>
    Attempt.lift (restore s.flow)
    throw e

omit [Monad m] [GroupControl α γ] in
/-- Warn of producers on a surface rate control that weights all three phases. -/
def warnThreePhaseRates : Step Id α γ Unit := do
  let s ← get
  s.model.units.zipIdx.forM fun (u, w) => do
    if u.well.isProducer then
      let current ← Attempt.need s.flow.control[w]?
      match u.well.controls.list[current]? with
      | some ⟨.surfaceRate, _, weights⟩ =>
        let weighted := s.model.setup.phases.active.filter fun p => decide (0 < weights.get p)
        if 3 ≤ weighted.length then note [.threePhaseRate u.well.name]
      | _ => pure ()

omit [Monad m] in
/-- Prepare an iteration of the reservoir, up to the local solution. -/
def prepare (cells : List (Cell α)) (dt : α) (iteration : Nat) : Step Id α γ Unit := do
  if ¬(Scalar.isFinite dt ∧ 0 < dt) then throw (.invalid (.timeStep dt))
  let s ← get
  s.model.checkState s.flow
  if iteration = 0 then takeEfficiencies
  updateControls cells
  takeUnknowns
  if iteration = 0 then
    refreshDensities cells
    modify fun s => { s with model := s.model.setStartFractions }
  warnThreePhaseRates

/-- Prepare and assemble the wells for an iteration of the reservoir, on this process alone. -/
def assembleLocally (comm : Communicator m α) (cells : List (Cell α)) (dt : α) (iteration : Nat) :
    Step m α γ SolveReport := do
  Attempt.lift (prepare cells dt iteration)
  let solveFirst := (← get).model.setup.settings.solveFirst && iteration = 0
  let report ← if solveFirst then solve comm cells dt else pure ⟨true, 0⟩
  Attempt.lift do
    assembleWells cells dt
    onFlow FlowState.countChange
  return report

/-- Prepare and assemble the wells for an iteration of the reservoir.  A fatal failure on any process stops all. -/
def assemble (comm : Communicator m α) (cells : List (Cell α)) (dt : α) (iteration : Nat) : Step m α γ SolveReport :=
  fun s => do
    let (r, s) ← assembleLocally comm cells dt iteration s
    return (← comm.shareFailure r, s)

end Session

end BlackOilWells
