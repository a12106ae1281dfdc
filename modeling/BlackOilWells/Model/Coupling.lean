import BlackOilWells.Model.Basic

/-!
# The wells in the reservoir system

Operations on reservoir vectors with the eliminated wells: each subtracts the part of every well, one after the other.
-/

namespace BlackOilWells

namespace Model

variable {α : Type} [Scalar α]

/-- Subtract `B D⁻¹ rw` of every well from a reservoir residual. -/
def applyResidual (m : Model α) : Attempt α (List (Vec3 α)) Unit := m.units.forM fun u => u.system.applyResidual

/-- Subtract `B D⁻¹ C x` of every well from a vector over the cells. -/
def apply (m : Model α) (x : List (Vec3 α)) : Attempt α (List (Vec3 α)) Unit := m.units.forM fun u => u.system.apply x

/-- Subtract `a B D⁻¹ C x` of every well from a vector over the cells. -/
def applyScaled (m : Model α) (a : α) (x : List (Vec3 α)) : Attempt α (List (Vec3 α)) Unit :=
  m.units.forM fun u => u.system.applyScaled a x

/-- The blocks to subtract from the reservoir matrix. -/
def reducedBlocks (m : Model α) : Outcome α (List (ReducedBlock α)) := do
  return (← m.units.mapM fun u => u.system.reducedBlocks).flatten

/-- The updates of the well unknowns that go with a reservoir update. -/
def recover (m : Model α) (x : List (Vec3 α)) : Outcome α (List (Vec3 α)) := m.units.mapM fun u => u.system.recover x

/-- The updates of the well unknowns with the reservoir held fixed. -/
def wellUpdates (m : Model α) : Outcome α (List (Vec3 α)) := m.units.mapM fun u => u.system.wellUpdate

end Model

end BlackOilWells
