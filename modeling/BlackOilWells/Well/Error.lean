import BlackOilWells.Fluid.Error
import BlackOilWells.Fluid.Phase

/-!
# Well errors

Why an operation on wells fails.  An error is numerical (the step must be repeated with a smaller time step), logical
(the pieces of the model do not fit together), invalid (an input was rejected), an abort (a peer process failed) or an
error of the fluid model.  Every error but an invalid input is fatal: it must stop the step on every process.

A `Fault` is what stops an operation: one of these errors, or an access past the end of an array that no check guards.
The latter is not an error that anybody handles; it ends the whole computation.
-/

namespace BlackOilWells

/-- What is wrong with the Jacobian of a well's own equations. -/
inductive JacobianFlaw where
  /-- It has an entry that is not finite. -/
  | notFinite
  /-- It has no inverse. -/
  | singular
  /-- Its inverse has an entry that is not finite. -/
  | illConditioned
deriving DecidableEq, Repr

/-- The cause of a numerical problem. -/
inductive NumericalCause (α : Type) where
  /-- A computed quantity is not finite. -/
  | notFinite (quantity : String) (value : α)
  /-- The Jacobian of a well cannot be eliminated; the well is named where it is known. -/
  | jacobian (flaw : JacobianFlaw) (well : Option String)
  /-- The residual of a phase is not a finite number on some process. -/
  | residualNotFinite (phase : Phase)
  /-- The residual of a phase exceeds what is allowed. -/
  | residualTooLarge (phase : Phase)
  /-- A rate out of the well bore is not finite. -/
  | outflowNotFinite
  /-- The update of a well's unknowns is not finite. -/
  | updateNotFinite (well : String)
  /-- A lift table gives a bottom-hole pressure that is not finite. -/
  | liftNotFinite (table : Nat)
  /-- A lift table is not monotone at a flow. -/
  | liftNotInvertible (table : Nat) (flow : α)
  /-- A problem that a caller states. -/
  | stated (text : String)
deriving Repr

/-- The cause of a logic error. -/
inductive LogicCause where
  /-- A well has no control of this index. -/
  | controlOutOfRange (index count : Nat)
  /-- There is no well of this index. -/
  | wellOutOfRange (index : Nat)
  /-- A connection lies in a cell without properties. -/
  | propertyCellMissing (cell : Nat)
  /-- A connection lies in a cell past the end of the reservoir state. -/
  | cellOutOfRange (cell count : Nat)
  /-- A well to be initialised connects to a cell past the end of the reservoir state. -/
  | wellCellOutOfRange (well : String) (cell count : Nat)
  /-- A connection lies in a cell past the end of a global vector. -/
  | vectorTooShort (cell length : Nat)
  /-- The blocks of a well are used before its Jacobian was inverted. -/
  | notEliminated
  /-- The well state does not have the size of the model. -/
  | stateSize (wells connections modelWells modelConnections : Nat)
  /-- The number of well updates is not the number of wells. -/
  | updateCount (updates wells : Nat)
  /-- The group gives a target to a well that does not exist. -/
  | unknownGroupTarget (well : String)
  /-- There is no lift table of this number. -/
  | tableMissing (id : Nat)
  /-- A well has no pressure limit to compute potentials at. -/
  | noPressureLimit (well : String)
  /-- Voidage replacement needs voidage coefficients. -/
  | noConverter
  /-- The well state has another number of wells than the model. -/
  | stateWells (held expected : Nat)
  /-- A problem that a caller states. -/
  | stated (text : String)
deriving DecidableEq, Repr

/-- Why an input was rejected. -/
inductive InvalidCause (α : Type) where
  /-- A well has no control. -/
  | noControls
  /-- The initial control is not one of the controls. -/
  | initialOutOfRange (initial count : Nat)
  /-- A control target is not finite. -/
  | targetNotFinite
  /-- A control weight is negative or not finite. -/
  | negativeWeight
  /-- A well has no connection. -/
  | noConnections (well : String)
  /-- A connection lies outside the grid. -/
  | cellOutsideGrid (well : String) (cell count : Nat)
  /-- A connection transmissibility is negative or not finite. -/
  | negativeTransmissibility (well : String)
  /-- An injector injects only absent phases. -/
  | nothingInjected (well : String)
  /-- The oil phase is absent. -/
  | oilInactive
  /-- Two wells have the same name. -/
  | duplicateName (well : String)
  /-- A control refers to a lift table that does not exist. -/
  | liftTableMissing (well : String) (table : Nat)
  /-- The local solve may not make a single iteration. -/
  | noIterations
  /-- A tolerance or the accumulation volume is not positive. -/
  | toleranceNotPositive
  /-- The time step is not positive and finite. -/
  | timeStep (dt : α)
  /-- A lift table has an axis without nodes. -/
  | emptyAxis (table : Nat)
  /-- The nodes of a lift table axis do not increase. -/
  | axisNotIncreasing (table : Nat)
  /-- The grid of a lift table does not have the size of its axes. -/
  | gridMismatch (table : Nat)
  /-- The bottom-hole pressure of a lift table does not increase with the tubing-head pressure. -/
  | gridNotIncreasing (table : Nat)
  /-- A reason that a caller states. -/
  | stated (text : String)
deriving Repr

/-- Why a step was aborted. -/
inductive AbortCause where
  /-- Another process failed; the rank is that of the process that reports it. -/
  | peerFailed (rank : Nat)
  /-- A reason that a caller states. -/
  | stated (text : String)
deriving DecidableEq, Repr

/-- An error of an operation on wells. -/
inductive WellError (α : Type) where
  /-- Numbers got out of hand; the step must be repeated with a smaller time step. -/
  | numerical (cause : NumericalCause α)
  /-- The pieces of the model do not fit together. -/
  | logic (cause : LogicCause)
  /-- An input was rejected. -/
  | invalid (cause : InvalidCause α)
  /-- The step was aborted because of a peer. -/
  | aborted (cause : AbortCause)
  /-- A fluid property could not be evaluated. -/
  | fluid (cause : FluidError)
deriving Repr

/-- Whether the error must abort the current step on every process. -/
def WellError.isFatal {α : Type} : WellError α → Bool
  | .invalid _ => false
  | _ => true

/-- What stops an operation. -/
inductive Fault (α : Type) where
  /-- An error that the operation reports. -/
  | error (e : WellError α)
  /-- An access past the end of an array. -/
  | outOfRange
deriving Repr

namespace Fault

variable {α β : Type}

/-- A numerical problem as a fault. -/
abbrev numerical (cause : NumericalCause α) : Fault α := .error (.numerical cause)

/-- A logic error as a fault. -/
abbrev logic (cause : LogicCause) : Fault α := .error (.logic cause)

/-- A rejected input as a fault. -/
abbrev invalid (cause : InvalidCause α) : Fault α := .error (.invalid cause)

end Fault

/-- The outcome of an operation that changes nothing. -/
abbrev Outcome (α : Type) (β : Type) := Except (Fault α) β

/-- An operation on a state, among other effects.  Whether it succeeds or stops, it leaves a state behind. -/
abbrev AttemptT (m : Type → Type) (α σ β : Type) := ExceptT (Fault α) (StateT σ m) β

/-- An operation on a state without other effects. -/
abbrev Attempt (α σ β : Type) := AttemptT Id α σ β

namespace Outcome

variable {α β : Type}

/-- A value that must be there. -/
def need : Option β → Outcome α β
  | some b => .ok b
  | none => .error .outOfRange

/-- A fluid property as part of an operation on wells. -/
def ofFluid : Except FluidError β → Outcome α β
  | .ok b => .ok b
  | .error e => .error (.error (.fluid e))

/-- The value, if it is finite. -/
def finite [Scalar α] (x : α) (quantity : String) : Outcome α α :=
  if Scalar.isFinite x then .ok x else .error (.numerical (.notFinite quantity x))

end Outcome

namespace Attempt

variable {m : Type → Type} {α σ τ β : Type}

/-- An operation on a part of the state. -/
def zoom (get : σ → τ) (put : σ → τ → σ) (act : Attempt α τ β) : Attempt α σ β := fun s =>
  let (r, t) := act (get s)
  (r, put s t)

/-- A value that must be there. -/
def need [Monad m] : Option β → AttemptT m α σ β
  | some b => pure b
  | none => throw .outOfRange

/-- The operation among other effects. -/
def lift [Monad m] (act : Attempt α σ β) : AttemptT m α σ β := fun s => pure (act s)

end Attempt

end BlackOilWells
