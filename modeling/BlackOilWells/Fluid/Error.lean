/-!
# Fluid errors

What a fluid property evaluation can reject.
-/

namespace BlackOilWells

/-- Why a fluid property could not be evaluated. -/
inductive FluidError where
  /-- A quantity has no physical meaning at its value. -/
  | nonPhysical (quantity : String)
  /-- There is no fluid region of this index among the given number of regions. -/
  | regionOutOfRange (region count : Nat)
  /-- The data of a fluid description were rejected. -/
  | invalid (reason : String)
deriving DecidableEq, Repr

/-- The text of the error. -/
def FluidError.message : FluidError → String
  | .nonPhysical quantity => s!"Non-physical value for {quantity}"
  | .regionOutOfRange region count => s!"PVT region {region} out of range (regions={count})"
  | .invalid reason => s!"Invalid argument: {reason}"

end BlackOilWells
