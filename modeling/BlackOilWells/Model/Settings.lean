import BlackOilWells.Numeric.Scalar

/-!
# Settings of the well model

Tolerances, step limits and constants, with the values that apply unless a caller gives others.
-/

namespace BlackOilWells

/-- Standard gravity, in metres per second squared. -/
def standardGravity {α : Type} [Scalar α] : α := 9.80665

/-- The volume of the well bore in the storage term: a tenth of a cubic foot, in cubic metres. -/
def wellboreStorage {α : Type} [Scalar α] : α := 0.0028316846592

/-- The settings of the well model. -/
structure Settings (α : Type) where
  /-- The tolerance for the scaled residual of each phase. -/
  tolerance : α
  /-- Scaled residuals above this stop the step. -/
  maxResidual : α
  /-- The largest change of the bottom-hole pressure in one update under rate control, relative to the pressure. -/
  maxBhpChange : α
  /-- The largest change of a phase fraction in one update. -/
  maxFractionChange : α
  /-- The number of iterations that a local solve may make. -/
  maxLocalIterations : Nat
  /-- Whether the well equations are solved on their own before the first iteration of a step. -/
  solveFirst : Bool
  /-- The volume in the storage term. -/
  storageVolume : α
  gravity : α
  /-- The least bottom-hole pressure under rate control. -/
  minBhp : α
  /-- Whether this process may report to a terminal. -/
  terminalOutput : Bool
deriving Repr

/-- The settings to use unless others are given. -/
def Settings.standard {α : Type} [Scalar α] : Settings α where
  tolerance := 1.0e-4
  maxResidual := 1.0e7
  maxBhpChange := 1
  maxFractionChange := 0.2
  maxLocalIterations := 15
  solveFirst := true
  storageVolume := wellboreStorage
  gravity := standardGravity
  minBhp := 1.0e5
  terminalOutput := true

end BlackOilWells
