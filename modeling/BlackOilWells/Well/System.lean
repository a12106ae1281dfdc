import BlackOilWells.Well.Error

/-!
# The linear system of a well

A well and the cells of its connections are coupled by

```text
[ A   B ] [x ]   [r  ]
[ C   D ] [xw] = [rw]
```

where `B` holds the derivatives of the reservoir equations by the well unknowns, `C` those of the well equations by the
cell unknowns and `D` those of the well equations by the well unknowns.  Eliminating the well leaves the reduced system
`(A - B D⁻¹ C) x = r - B D⁻¹ rw`, and `xw = D⁻¹ (rw - C x)` recovers the well unknowns.

Every product uses the inverse that `eliminate` has stored.  Writing to `B`, `C` or `D` drops it, so that no product is
formed with the inverse of an older matrix.
-/

namespace BlackOilWells

/-- The coupling of a well with the cell of one connection. -/
structure Coupling (α : Type) where
  cell : Nat
  /-- The derivatives of the reservoir equations by the well unknowns. -/
  toReservoir : Block α
  /-- The derivatives of the well equations by the cell unknowns. -/
  toWell : Block α

/-- A block of the reduced system, to be subtracted from the reservoir matrix. -/
structure ReducedBlock (α : Type) where
  /-- The cell of the equations. -/
  rowCell : Nat
  /-- The cell of the unknowns. -/
  colCell : Nat
  /-- The entries. -/
  block : Block α

/-- The linear system of one well. -/
structure WellSystem (α : Type) where
  /-- The couplings in the order of the connections. -/
  couplings : List (Coupling α)
  /-- The derivatives of the well equations by the well unknowns. -/
  jacobian : Block α
  /-- The residual of the well equations. -/
  residual : Vec3 α
  /-- The inverse of the Jacobian, once it has been computed. -/
  inverse : Option (Block α)

namespace WellSystem

variable {α : Type} [Scalar α]

/-- The system without any entries for a well that is connected to given cells. -/
def empty (cells : List Nat) : WellSystem α := ⟨cells.map (⟨·, 0, 0⟩), 0, 0, none⟩

omit [Scalar α] in
/-- The connected cells. -/
def cells (s : WellSystem α) : List Nat := s.couplings.map (·.cell)

/-! ### Entries -/

omit [Scalar α] in
/-- The coupling of a connection. -/
def coupling (s : WellSystem α) (k : Nat) : Outcome α (Coupling α) := Outcome.need s.couplings[k]?

omit [Scalar α] in
/-- Write the derivatives of the reservoir equations at a connection. -/
def setToReservoir (s : WellSystem α) (k : Nat) (b : Block α) : Outcome α (WellSystem α) := do
  let c ← s.coupling k
  return { s with couplings := s.couplings.set k { c with toReservoir := b }, inverse := none }

omit [Scalar α] in
/-- Write the derivatives of the well equations at a connection. -/
def setToWell (s : WellSystem α) (k : Nat) (b : Block α) : Outcome α (WellSystem α) := do
  let c ← s.coupling k
  return { s with couplings := s.couplings.set k { c with toWell := b }, inverse := none }

omit [Scalar α] in
/-- Write the Jacobian of the well equations. -/
def setJacobian (s : WellSystem α) (d : Block α) : WellSystem α := { s with jacobian := d, inverse := none }

omit [Scalar α] in
/-- Write the residual. -/
def setResidual (s : WellSystem α) (r : Vec3 α) : WellSystem α := { s with residual := r }

/-! ### Elimination -/

/-- Invert a Jacobian; entries that are not finite before or after are refused. -/
def invert (d : Block α) : Except JacobianFlaw (Block α) :=
  if !d.isFinite then .error .notFinite
  else match d.inverse? with
    | none => .error .singular
    | some inv => if inv.isFinite then .ok inv else .error .illConditioned

/-- Store the inverse of the Jacobian.  An error names the well if it is known. -/
def eliminate (s : WellSystem α) (well : Option String) : Outcome α (WellSystem α) :=
  match invert s.jacobian with
  | .ok inv => .ok { s with inverse := some inv }
  | .error flaw => .error (.numerical (.jacobian flaw well))

omit [Scalar α] in
/-- The inverse of the Jacobian. -/
def getInverse (s : WellSystem α) : Outcome α (Block α) :=
  match s.inverse with
  | some inv => .ok inv
  | none => .error (.logic .notEliminated)

/-! ### Products -/

omit [Scalar α] in
/-- The entry of a vector over the cells. -/
def entry (x : List (Vec3 α)) (cell : Nat) : Outcome α (Vec3 α) :=
  match x[cell]? with
  | some v => .ok v
  | none => .error (.logic (.vectorTooShort cell x.length))

/-- Subtract from each connected cell what a function gives for its coupling. -/
def subtractAll (f : Coupling α → Vec3 α) (couplings : List (Coupling α)) : Attempt α (List (Vec3 α)) Unit :=
  couplings.forM fun c => do
    let r ← get
    let v ← entry r c.cell
    set (r.set c.cell (v - f c))

/-- The product `C x`. -/
def toWellTimes (s : WellSystem α) (x : List (Vec3 α)) : Outcome α (Vec3 α) :=
  s.couplings.foldlM (fun acc c => do return acc + c.toWell.mulVec (← entry x c.cell)) 0

/-- The update `D⁻¹ rw` of the well unknowns with the reservoir held fixed. -/
def wellUpdate (s : WellSystem α) : Outcome α (Vec3 α) := do return (← s.getInverse).mulVec s.residual

/-- Subtract `B D⁻¹ rw` from a reservoir residual. -/
def applyResidual (s : WellSystem α) : Attempt α (List (Vec3 α)) Unit := do
  let y ← s.wellUpdate
  subtractAll (fun c => c.toReservoir.mulVec y) s.couplings

/-- Subtract `a B D⁻¹ C x` from a vector over the cells. -/
def applyScaled (s : WellSystem α) (a : α) (x : List (Vec3 α)) : Attempt α (List (Vec3 α)) Unit := do
  let inv ← s.getInverse
  let y := inv.mulVec (← s.toWellTimes x)
  subtractAll (fun c => (c.toReservoir.mulVec y).scale a) s.couplings

/-- Subtract `B D⁻¹ C x` from a vector over the cells. -/
def apply (s : WellSystem α) (x : List (Vec3 α)) : Attempt α (List (Vec3 α)) Unit := s.applyScaled 1 x

/-- The update `D⁻¹ (rw - C x)` of the well unknowns that goes with a reservoir update. -/
def recover (s : WellSystem α) (x : List (Vec3 α)) : Outcome α (Vec3 α) := do
  let inv ← s.getInverse
  return inv.mulVec (s.residual - (← s.toWellTimes x))

/-- The blocks `B D⁻¹ C` of the reduced system, one for each pair of connections. -/
def reducedBlocks (s : WellSystem α) : Outcome α (List (ReducedBlock α)) := do
  let inv ← s.getInverse
  return s.couplings.flatMap fun row =>
    let left := row.toReservoir.mul inv
    s.couplings.map fun col => ⟨row.cell, col.cell, left.mul col.toWell⟩

end WellSystem

end BlackOilWells
