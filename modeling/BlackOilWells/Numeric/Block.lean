import BlackOilWells.Numeric.Scalar

/-!
# Vectors and matrices of size three

There are three conservation equations and three unknowns per cell and per well, so the coupled system is made of
vectors of three entries and blocks of three by three.  Products add their three terms from the left.  `Block.inverse?`
divides the cofactors by the determinant and fails exactly when the determinant is zero.
-/

namespace BlackOilWells

/-- Three numbers, one for each equation or for each unknown. -/
structure Vec3 (α : Type) where
  /-- The first entry. -/
  x : α
  /-- The second entry. -/
  y : α
  /-- The third entry. -/
  z : α
deriving DecidableEq, Repr

namespace Vec3

variable {α β γ : Type}

/-- The three entries in order. -/
def toList (v : Vec3 α) : List α := [v.x, v.y, v.z]

/-- The same entry three times. -/
def replicate (a : α) : Vec3 α := ⟨a, a, a⟩

/-- Apply a function to each entry. -/
def map (f : α → β) (v : Vec3 α) : Vec3 β := ⟨f v.x, f v.y, f v.z⟩

/-- Combine two vectors entry by entry. -/
def zipWith (f : α → β → γ) (v : Vec3 α) (w : Vec3 β) : Vec3 γ := ⟨f v.x w.x, f v.y w.y, f v.z w.z⟩

/-- Whether every entry satisfies a test. -/
def all (p : α → Bool) (v : Vec3 α) : Bool := p v.x && p v.y && p v.z

instance [Add α] : Add (Vec3 α) := ⟨zipWith (· + ·)⟩

instance [Sub α] : Sub (Vec3 α) := ⟨zipWith (· - ·)⟩

instance [Zero α] : Zero (Vec3 α) := ⟨replicate 0⟩

/-- Every entry times a number. -/
def scale [Mul α] (v : Vec3 α) (a : α) : Vec3 α := v.map (· * a)

/-- The sum of the products of corresponding entries. -/
def dot [Add α] [Mul α] (v w : Vec3 α) : α := v.x * w.x + v.y * w.y + v.z * w.z

end Vec3

/-- A matrix of size three, row by row. -/
abbrev Block (α : Type) := Vec3 (Vec3 α)

namespace Block

variable {α : Type}

/-- Column vectors of a matrix. -/
def transpose (m : Block α) : Block α :=
  ⟨⟨m.x.x, m.y.x, m.z.x⟩, ⟨m.x.y, m.y.y, m.z.y⟩, ⟨m.x.z, m.y.z, m.z.z⟩⟩

/-- The product of a matrix and a column vector. -/
def mulVec [Add α] [Mul α] (m : Block α) (v : Vec3 α) : Vec3 α := m.map (·.dot v)

/-- The product of two matrices. -/
def mul [Add α] [Mul α] (m k : Block α) : Block α := m.map fun row => k.transpose.map row.dot

/-- The determinant, expanded along the first row. -/
def det [Add α] [Sub α] [Mul α] (m : Block α) : α :=
  m.x.x * (m.y.y * m.z.z - m.z.y * m.y.z) - m.x.y * (m.y.x * m.z.z - m.z.x * m.y.z)
    + m.x.z * (m.y.x * m.z.y - m.z.x * m.y.y)

/-- The inverse by cofactors, unless the determinant is zero. -/
def inverse? [Scalar α] (m : Block α) : Option (Block α) :=
  let d := m.det
  if d == 0 then none
  else some
    ⟨⟨(m.y.y * m.z.z - m.z.y * m.y.z) / d, (m.x.z * m.z.y - m.z.z * m.x.y) / d,
        (m.x.y * m.y.z - m.y.y * m.x.z) / d⟩,
      ⟨-(m.y.x * m.z.z - m.z.x * m.y.z) / d, (m.x.x * m.z.z - m.z.x * m.x.z) / d,
        (m.x.z * m.y.x - m.y.z * m.x.x) / d⟩,
      ⟨(m.y.x * m.z.y - m.z.x * m.y.y) / d, (m.x.y * m.z.x - m.z.y * m.x.x) / d,
        (m.x.x * m.y.y - m.y.x * m.x.y) / d⟩⟩

/-- Whether every entry is finite. -/
def isFinite [Scalar α] (m : Block α) : Bool := m.all (·.all Scalar.isFinite)

end Block

end BlackOilWells
