import BlackOilWells.Well.Control

/-!
# Wells and their connections

The static description of wells: connections to reservoir cells from the top of the well bore downwards, composition,
constraints.  `Wells.create` accepts a list of wells that fits the active phases and the grid; it normalises the
compositions.  The connections of all wells share one index space, in which each well owns a range of consecutive
indices (`Wells.placed`); what a list has at such a range is a `window`.
-/

namespace BlackOilWells

/-- A perforation that links a well to a reservoir cell. -/
structure Connection (α : Type) where
  cell : Nat
  /-- The connection transmissibility factor. -/
  transmissibility : α
  /-- The depth of the connection. -/
  depth : α
  /-- A static factor on what the connection exchanges with its cell. -/
  efficiency : α
deriving Repr

/-- The static description of one well. -/
structure Well (α : Type) where
  name : String
  /-- Whether the well injects or produces. -/
  type : WellType
  /-- The depth at which the bottom-hole pressure is reported. -/
  refDepth : α
  /-- The connections from the top downwards. -/
  connections : List (Connection α)
  /-- The injected composition; for a producer the mix to fall back on without flow. -/
  composition : PerPhase α
  /-- The constraints. -/
  controls : Controls α
  /-- Whether connections may flow against the type of the well. -/
  crossFlow : Bool
deriving Repr

namespace Well

variable {α : Type}

/-- Whether the well injects. -/
def isInjector (w : Well α) : Bool := w.type = .injector

/-- Whether the well produces. -/
def isProducer (w : Well α) : Bool := w.type = .producer

theorem isInjector_of_isProducer {w : Well α} (h : w.isProducer = true) : w.isInjector = false := by
  rw [isInjector, of_decide_eq_true h]
  rfl

/-- The cells of the connections. -/
def cells (w : Well α) : List Nat := w.connections.map (·.cell)

variable [Scalar α]

/-- A producer that permits cross flow. -/
def producer (name : String) (refDepth : α) (connections : List (Connection α)) (controls : Controls α) : Well α :=
  ⟨name, .producer, refDepth, connections, .replicate 0, controls, true⟩

/-- An injector of one phase that permits cross flow. -/
def injector (name : String) (refDepth : α) (phase : Phase) (connections : List (Connection α))
    (controls : Controls α) : Well α :=
  ⟨name, .injector, refDepth, connections, (PerPhase.replicate 0).set phase 1, controls, true⟩

/-- Refuse a connection outside the grid or with a negative transmissibility. -/
def checkConnection (w : Well α) (numCells : Nat) (c : Connection α) : Outcome α Unit := do
  if numCells ≤ c.cell then throw (.invalid (.cellOutsideGrid w.name c.cell numCells))
  if ¬(Scalar.isFinite c.transmissibility ∧ 0 ≤ c.transmissibility) then
    throw (.invalid (.negativeTransmissibility w.name))

/-- The well with its composition restricted to the active phases and scaled to the sum one.  A producer without any
composition takes an even mix of the active phases. -/
def accept (w : Well α) (phases : PhaseSet) (numCells : Nat) : Outcome α (Well α) := do
  if w.connections.isEmpty then throw (.invalid (.noConnections w.name))
  w.connections.forM (w.checkConnection numCells)
  let given := phases.select w.composition (.replicate 0)
  let total := given.sum
  if total ≤ 0 then
    if w.isInjector then throw (.invalid (.nothingInjected w.name))
    return { w with composition := phases.select (.replicate (1 / (phases.count : α))) given }
  return { w with composition := given.map (· / total) }

end Well

/-- The wells of a model. -/
structure Wells (α : Type) where
  /-- The wells in order. -/
  list : List (Well α)
deriving Repr

/-- A member of a list of wells with its place: its index and the index of its first connection. -/
structure Placed (β : Type) where
  /-- The index of the well. -/
  index : Nat
  /-- The index of the well's first connection among all connections. -/
  first : Nat
  /-- The member. -/
  item : β

namespace Placed

variable {β : Type}

/-- The members of a list with their places, if the first has the given place. -/
def ofListFrom (connections : β → Nat) : Nat → Nat → List β → List (Placed β)
  | _, _, [] => []
  | w, first, b :: bs => ⟨w, first, b⟩ :: ofListFrom connections (w + 1) (first + connections b) bs

/-- The members of a list with their places. -/
def ofList (connections : β → Nat) (bs : List β) : List (Placed β) := ofListFrom connections 0 0 bs

end Placed

/-- The `n` members of a list from the place `a` on. -/
def window {β : Type} (a n : Nat) (l : List β) : List β := (l.drop a).take n

namespace Wells

variable {α : Type}

/-- The first name that also occurs earlier in the list. -/
def duplicate? : List String → List String → Option String
  | _, [] => none
  | seen, n :: ns => if seen.contains n then some n else duplicate? (seen ++ [n]) ns

/-- Accept wells against the active phases and the number of cells.  Oil must be active, because its fraction closes
the well stream. -/
def create [Scalar α] (list : List (Well α)) (phases : PhaseSet) (numCells : Nat) : Outcome α (Wells α) := do
  if ¬phases.oil then throw (.invalid .oilInactive)
  let accepted ← list.mapM fun w => w.accept phases numCells
  match duplicate? [] (accepted.map (·.name)) with
  | some name => throw (.invalid (.duplicateName name))
  | none => return ⟨accepted⟩

/-- The well of an index. -/
def get (ws : Wells α) (w : Nat) : Outcome α (Well α) :=
  match ws.list[w]? with
  | some well => .ok well
  | none => .error (.logic (.wellOutOfRange w))

/-- The index of the well of a name. -/
def indexOf? (ws : Wells α) (name : String) : Option Nat := ws.list.findIdx? (·.name == name)

/-- The number of connections of all wells. -/
def numConnections (ws : Wells α) : Nat := ws.list.foldl (fun n w => n + w.connections.length) 0

/-- The wells with their places. -/
def placed (ws : Wells α) : List (Placed (Well α)) := Placed.ofList (·.connections.length) ws.list

/-- Replace the target of a control of a well. -/
def setTarget (ws : Wells α) (w control : Nat) (target : α) : Outcome α (Wells α) := do
  let well ← ws.get w
  let controls ← well.controls.setTarget control target
  return ⟨ws.list.set w { well with controls := controls }⟩

end Wells

end BlackOilWells
