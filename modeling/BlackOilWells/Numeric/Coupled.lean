import BlackOilWells.Numeric.Block
import BlackOilWells.Numeric.Dual

/-!
# Derivatives by cell and by well

A quantity of a reservoir cell depends on the three unknowns of the cell, and a quantity of a connection also on the
three unknowns of the well.  `CellDual` has one direction for each cell unknown; `WellDual` has the cell unknowns in the
directions `0, 1, 2` and the well unknowns in the directions `3, 4, 5`.
-/

namespace BlackOilWells

/-- There are unknowns. -/
instance threeUnknowns : @NeZero Nat Zero.ofOfNat0 3 := ⟨Nat.succ_ne_zero 2⟩

/-- A value with derivatives by the unknowns of one cell. -/
abbrev CellDual (α : Type) := Dual α 3

/-- A value with derivatives by the unknowns of one cell and of one well. -/
abbrev WellDual (α : Type) := Dual α 6

variable {α : Type} [Scalar α]

namespace WellDual

/-- A well unknown, seeded in its direction. -/
def seedWell (x : α) (slot : Fin 3) : WellDual α := Dual.seed x ⟨3 + slot.val, by omega⟩

/-- A value that does not depend on the well. -/
def ofCell (c : CellDual α) : WellDual α :=
  ⟨c.value, Vector.ofFn fun i => if h : i.val < 3 then c.partials[i.val] else 0⟩

/-- The value with its derivatives by the cell unknowns only. -/
def toCell (d : WellDual α) : CellDual α := ⟨d.value, Vector.ofFn fun i => d.partials[i.val]⟩

omit [Scalar α] in
/-- The derivatives by the cell unknowns. -/
def byCell (d : WellDual α) : Vec3 α := ⟨d.partials[0], d.partials[1], d.partials[2]⟩

omit [Scalar α] in
/-- The derivatives by the well unknowns. -/
def byWell (d : WellDual α) : Vec3 α := ⟨d.partials[3], d.partials[4], d.partials[5]⟩

end WellDual

end BlackOilWells
