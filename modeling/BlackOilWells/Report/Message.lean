import BlackOilWells.Text.Number
import BlackOilWells.Well.Error

/-!
# Messages of errors

The wording of well errors.  `WellError.text` is what happened; `WellError.message` puts the kind of the error in front.
Numbers are written with as few digits as possible.
-/

namespace BlackOilWells

/-- What happened. -/
def JacobianFlaw.text : JacobianFlaw → String
  | .notFinite => "non-finite well Jacobian"
  | .singular => "singular well Jacobian"
  | .illConditioned => "ill-conditioned well Jacobian"

/-- What happened. -/
def NumericalCause.text : NumericalCause Float → String
  | .notFinite quantity value => s!"{quantity} is not finite ({NumberFormat.plain.write value})"
  | .jacobian flaw none => flaw.text
  | .jacobian flaw (some well) => s!"{flaw.text} for well {well}"
  | .residualNotFinite phase => s!"NaN residual for phase {phase.name}"
  | .residualTooLarge phase => s!"Too large residual for phase {phase.name}"
  | .outflowNotFinite => "non-finite connection rate in well-bore outflow"
  | .updateNotFinite well => s!"non-finite update for well {well}"
  | .liftNotFinite table => s!"VFP table {table} produced a non-finite BHP"
  | .liftNotInvertible table flow =>
    s!"VFP table {table} cannot be inverted at flow {NumberFormat.plain.write flow}"
  | .stated text => text

/-- What happened. -/
def LogicCause.text : LogicCause → String
  | .controlOutOfRange index count => s!"control index {index} out of range ({count} controls)"
  | .wellOutOfRange index => s!"well index {index} out of range"
  | .propertyCellMissing cell => s!"connection cell {cell} outside reservoir state"
  | .cellOutOfRange cell count => s!"connection cell {cell} outside the reservoir state ({count} cells)"
  | .wellCellOutOfRange well cell count =>
    s!"well {well} connects to cell {cell} outside the reservoir state ({count} cells)"
  | .vectorTooShort cell length => s!"connection cell {cell} outside a global vector of {length} cells"
  | .notEliminated => "well blocks used before elimination"
  | .stateSize wells connections modelWells modelConnections =>
    s!"well state sized for {wells} wells and {connections} connections, " ++
      s!"model has {modelWells} and {modelConnections}"
  | .updateCount updates wells => s!"{updates} well updates for {wells} wells"
  | .unknownGroupTarget well => s!"group target for unknown well {well}"
  | .tableMissing id => s!"VFP table {id} not found"
  | .noPressureLimit well => s!"could not find bhp value for well {well} to compute potentials"
  | .noConverter => "voidage replacement requires a rate converter"
  | .stateWells held expected => s!"well state holds {held} wells but the model has {expected}"
  | .stated text => text

/-- What was rejected. -/
def InvalidCause.text : InvalidCause Float → String
  | .noControls => "a well needs at least one control"
  | .initialOutOfRange initial count => s!"initial control {initial} out of range ({count} controls)"
  | .targetNotFinite => "control target must be finite"
  | .negativeWeight => "control weights must be non-negative"
  | .noConnections well => s!"well {well} has no connections"
  | .cellOutsideGrid well cell count => s!"well {well} connects to cell {cell} but the grid has {count} cells"
  | .negativeTransmissibility well => s!"well {well} has a negative connection transmissibility"
  | .nothingInjected well => s!"injector {well} has no active injected phase"
  | .oilInactive => "the well model requires an active oil phase"
  | .duplicateName well => s!"duplicate well name {well}"
  | .liftTableMissing well table => s!"well {well} refers to missing VFP table {table}"
  | .noIterations => "max_local_iterations must be positive"
  | .toleranceNotPositive => "well tolerance and accumulation volume must be positive"
  | .timeStep dt => s!"time step must be positive, got {NumberFormat.plain.write dt}"
  | .emptyAxis table => s!"VFP table {table} has an empty axis"
  | .axisNotIncreasing table => s!"VFP table {table} axes must be strictly increasing"
  | .gridMismatch table => s!"VFP table {table} BHP grid does not match its axes"
  | .gridNotIncreasing table => s!"VFP table {table} BHP must increase with THP"
  | .stated text => text

/-- Why the step was aborted. -/
def AbortCause.text : AbortCause → String
  | .peerFailed rank => s!"fatal well error on another process (rank {rank})"
  | .stated text => text

namespace WellError

/-- What happened. -/
def text : WellError Float → String
  | .numerical cause => cause.text
  | .logic cause => cause.text
  | .invalid cause => cause.text
  | .aborted cause => cause.text
  | .fluid cause => cause.message

/-- The kind of the error, as it stands in front of a message. -/
def heading : WellError Float → String
  | .numerical _ => "Numerical problem"
  | .logic _ => "Logic error"
  | .invalid _ => "Invalid argument"
  | .aborted _ => "Step aborted"
  | .fluid _ => "Fluid error"

/-- The message of the error. -/
def message (e : WellError Float) : String := s!"{e.heading}: {e.text}"

end WellError

end BlackOilWells
