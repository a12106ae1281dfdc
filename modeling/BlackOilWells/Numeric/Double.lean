import BlackOilWells.Numeric.Scalar

/-!
# Binary doubles as scalars

The instance on which the programs run.
-/

namespace BlackOilWells

instance : ElementaryScalar Float where
  zero := 0.0
  one := 1.0
  natCast := Float.ofNat
  decLT := fun x y => inferInstanceAs (Decidable (x < y))
  decLE := fun x y => inferInstanceAs (Decidable (x ≤ y))
  abs := Float.abs
  isNaN := Float.isNaN
  isFinite := Float.isFinite
  sqrt := Float.sqrt
  exp := Float.exp

end BlackOilWells
