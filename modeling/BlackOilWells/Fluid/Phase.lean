import BlackOilWells.Fluid.Error
import BlackOilWells.Numeric.Block

/-!
# Phases

The three phases of a black oil in their canonical order, quantities given for each of them, and the set of phases
that take part in a simulation.  A quantity of an absent phase holds a neutral value; what is neutral depends on the
quantity.
-/

namespace BlackOilWells

/-- A phase of the black oil. -/
inductive Phase where
  | water
  | oil
  | gas
deriving DecidableEq, Repr

namespace Phase

/-- All phases in canonical order. -/
def all : List Phase := [.water, .oil, .gas]

/-- The position in the canonical order. -/
def index : Phase → Nat
  | .water => 0
  | .oil => 1
  | .gas => 2

/-- The name of the phase. -/
def name : Phase → String
  | .water => "water"
  | .oil => "oil"
  | .gas => "gas"

/-- The phase of a name. -/
def ofName? (s : String) : Option Phase := all.find? (·.name == s)

end Phase

/-! ### Quantities by phase -/

/-- One value for each phase. -/
structure PerPhase (α : Type) where
  /-- The value of water. -/
  water : α
  /-- The value of oil. -/
  oil : α
  /-- The value of gas. -/
  gas : α
deriving DecidableEq, Repr

namespace PerPhase

variable {α β γ : Type}

/-- The value of a phase. -/
def get (q : PerPhase α) : Phase → α
  | .water => q.water
  | .oil => q.oil
  | .gas => q.gas

/-- The quantity with a given value for each phase. -/
def ofFn (f : Phase → α) : PerPhase α := ⟨f .water, f .oil, f .gas⟩

/-- The quantity whose values are computed in canonical order. -/
def ofFnM {m : Type → Type} [Monad m] (f : Phase → m α) : m (PerPhase α) := do
  let water ← f .water
  let oil ← f .oil
  let gas ← f .gas
  return ⟨water, oil, gas⟩

/-- The same value for every phase. -/
def replicate (a : α) : PerPhase α := ⟨a, a, a⟩

/-- The quantity with the value of one phase replaced. -/
def set (q : PerPhase α) (p : Phase) (a : α) : PerPhase α := ofFn fun r => if r = p then a else q.get r

/-- Apply a function to each value. -/
def map (f : α → β) (q : PerPhase α) : PerPhase β := ⟨f q.water, f q.oil, f q.gas⟩

/-- Combine two quantities phase by phase. -/
def zipWith (f : α → β → γ) (q : PerPhase α) (r : PerPhase β) : PerPhase γ :=
  ⟨f q.water r.water, f q.oil r.oil, f q.gas r.gas⟩

/-- The values in canonical order. -/
def toList (q : PerPhase α) : List α := [q.water, q.oil, q.gas]

/-- The quantity of a list of exactly three values. -/
def ofList? : List α → Option (PerPhase α)
  | [w, o, g] => some ⟨w, o, g⟩
  | _ => none

/-- The values as the rows of a vector of equations. -/
def toVec (q : PerPhase α) : Vec3 α := ⟨q.water, q.oil, q.gas⟩

/-- The quantity of a vector of equations. -/
def ofVec (v : Vec3 α) : PerPhase α := ⟨v.x, v.y, v.z⟩

/-- The sum over all phases. -/
def sum [Scalar α] (q : PerPhase α) : α := Scalar.sum q.toList

/-- The sum over all phases of the products with weights. -/
def weightedSum [Scalar α] (weights q : PerPhase α) : α := (zipWith (· * ·) weights q).sum

@[simp] theorem ofVec_toVec (q : PerPhase α) : ofVec q.toVec = q := rfl

@[simp] theorem get_ofFn (f : Phase → α) (p : Phase) : (ofFn f).get p = f p := by cases p <;> rfl

@[simp] theorem ofFn_get (q : PerPhase α) : ofFn q.get = q := rfl

@[simp] theorem get_map (f : α → β) (q : PerPhase α) (p : Phase) : (q.map f).get p = f (q.get p) := by
  cases p <;> rfl

@[simp] theorem get_replicate (a : α) (p : Phase) : (replicate a).get p = a := by cases p <;> rfl

@[simp] theorem get_zipWith (f : α → β → γ) (q : PerPhase α) (r : PerPhase β) (p : Phase) :
    (zipWith f q r).get p = f (q.get p) (r.get p) := by cases p <;> rfl

theorem ext_get {q r : PerPhase α} (h : ∀ p, q.get p = r.get p) : q = r := by
  rw [← ofFn_get q, ← ofFn_get r, funext h]

end PerPhase

/-! ### Sets of phases -/

/-- The phases that take part in a simulation. -/
structure PhaseSet where
  /-- Whether water takes part. -/
  water : Bool
  /-- Whether oil takes part. -/
  oil : Bool
  /-- Whether gas takes part. -/
  gas : Bool
deriving DecidableEq, Repr

namespace PhaseSet

/-- Water, oil and gas. -/
def threePhase : PhaseSet := ⟨true, true, true⟩

/-- Oil and water. -/
def oilWater : PhaseSet := ⟨true, true, false⟩

/-- Oil and gas. -/
def oilGas : PhaseSet := ⟨false, true, true⟩

/-- One phase alone. -/
def single (p : Phase) : PhaseSet := ⟨p = .water, p = .oil, p = .gas⟩

/-- The set of given phases, if it is not empty. -/
def create (water oil gas : Bool) : Except FluidError PhaseSet :=
  if water || oil || gas then .ok ⟨water, oil, gas⟩ else .error (.invalid "at least one phase must be active")

instance : Inhabited PhaseSet := ⟨threePhase⟩

/-- Whether a phase takes part. -/
def isActive (s : PhaseSet) : Phase → Bool
  | .water => s.water
  | .oil => s.oil
  | .gas => s.gas

/-- The active phases in canonical order. -/
def active (s : PhaseSet) : List Phase := Phase.all.filter s.isActive

/-- The number of active phases. -/
def count (s : PhaseSet) : Nat := s.active.length

/-- Whether both hydrocarbon phases are active, so that each can be dissolved in the other. -/
def hasOilAndGas (s : PhaseSet) : Bool := s.oil && s.gas

/-- `q` at the active phases and `rest` at the others. -/
def select {α : Type} (s : PhaseSet) (q rest : PerPhase α) : PerPhase α :=
  .ofFn fun p => if s.isActive p then q.get p else rest.get p

/-- The sum over the active phases. -/
def sum {α : Type} [Scalar α] (s : PhaseSet) (q : PerPhase α) : α := Scalar.sum (s.active.map q.get)

/-- The sum over the active phases, added to zero. -/
def total {α : Type} [Zero α] [Add α] (s : PhaseSet) (q : PerPhase α) : α := (s.active.map q.get).foldl (· + ·) 0

theorem isActive_of_mem {s : PhaseSet} {p : Phase} (h : p ∈ s.active) : s.isActive p = true := (List.mem_filter.1 h).2

theorem get_select {α : Type} {s : PhaseSet} {p : Phase} (h : s.isActive p = true) (q rest : PerPhase α) :
    (s.select q rest).get p = q.get p := by
  rw [select, PerPhase.get_ofFn, if_pos h]

theorem get_select_absent {α : Type} {s : PhaseSet} {p : Phase} (h : s.isActive p = false) (q rest : PerPhase α) :
    (s.select q rest).get p = rest.get p := by
  rw [select, PerPhase.get_ofFn, h, if_neg Bool.false_ne_true]

end PhaseSet

end BlackOilWells
