import BlackOilWells.Numeric.Dual
import BlackOilWells.Text.Number

/-!
# Differentiable values as text
-/

namespace BlackOilWells.Dual

variable {n : Nat}

/-- The value alone. -/
def plain (d : Dual Float n) : String := NumberFormat.plain.write d.value

/-- The value with all its derivatives. -/
def describe (d : Dual Float n) : String :=
  let partials := ", ".intercalate (d.partials.toList.map NumberFormat.pointed.write)
  s!"Eval({NumberFormat.scientific.write d.value}; [{partials}])"

end BlackOilWells.Dual
