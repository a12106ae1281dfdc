import BlackOilWells.Economics.Limits
import BlackOilWells.Well.State

/-!
# Closures

Which wells and connections have been closed for economic reasons.  `Closures.review` goes once over all producers: a
broken rate limit shuts or stops the well, a broken ratio limit closes its worst connection, and the well too if that
was the last one.  Wells that are shut or stopped are left alone, and so are connections in closed cells.
-/

namespace BlackOilWells

/-- Wells and connections that are closed. -/
structure Closures where
  /-- The names of the wells that are shut off from the reservoir, in increasing order. -/
  shut : List String
  /-- The names of the wells that are stopped at the surface, in increasing order. -/
  stopped : List String
  /-- For each well the cells of its closed connections, in the order of closing. -/
  connections : List (String × List Nat)
deriving Repr

namespace Closures

/-- Nothing is closed. -/
def empty : Closures := ⟨[], [], []⟩

/-- Add a name to an increasing list of names, unless it is there. -/
def insertName (name : String) : List String → List String
  | [] => [name]
  | n :: ns => if n < name then n :: insertName name ns else if n = name then n :: ns else name :: n :: ns

/-- Record a well as shut. -/
def addShut (c : Closures) (well : String) : Closures := { c with shut := insertName well c.shut }

/-- Record a well as stopped. -/
def addStopped (c : Closures) (well : String) : Closures := { c with stopped := insertName well c.stopped }

/-- The cells of the closed connections of a well. -/
def closedCells (c : Closures) (well : String) : List Nat := (c.connections.lookup well).getD []

/-- Record the cell of a closed connection, unless it is recorded. -/
def addClosed (c : Closures) (well : String) (cell : Nat) : Closures :=
  let cells := c.closedCells well
  if cells.contains cell then c
  else { c with connections := LimitSchedule.insertAt well (cells ++ [cell]) c.connections }

/-- Whether a well is shut or stopped. -/
def isClosed (c : Closures) (well : String) : Bool := c.shut.contains well || c.stopped.contains well

end Closures

/-- What is decided about a producer. -/
inductive Verdict where
  /-- It stays as it is. -/
  | keep
  /-- It is shut off from the reservoir. -/
  | shut
  /-- It is stopped at the surface. -/
  | stop
  /-- A connection is closed; the well too if it was the last one. -/
  | close (connection cell : Nat) (last : Bool)
deriving DecidableEq, Repr

namespace Closures

/-- Record a verdict on a well. -/
def record (c : Closures) (well : String) : Verdict → Closures
  | .keep => c
  | .shut => c.addShut well
  | .stop => c.addStopped well
  | .close _ cell last =>
    let c := c.addClosed well cell
    if last then c.addShut well else c

end Closures

namespace Verdict

variable {α : Type}

/-- The notices of a verdict on a well. -/
def notices (limits : Limits α) (well : String) : Verdict → List (Notice α)
  | .keep => []
  | .shut => closing ++ [.wellShut well]
  | .stop => closing ++ [.wellStopped well]
  | .close k _ last => .connectionClosed well k :: if last then [.lastConnectionClosed well] else []
where
  closing := (if limits.endRun then [.endRun well] else []) ++ if limits.followOn.isSome then [.followOn] else []

end Verdict

namespace Closures

variable {α : Type} [Scalar α]

omit [Scalar α] in
/-- The open connections of a well, with their positions. -/
def openConnections (w : Well α) (closed : List Nat) : List (Connection α × Nat) :=
  w.connections.zipIdx.filter fun (c, _) => !closed.contains c.cell

/-- The verdict on a producer under its limits, with the notices of the checks. -/
def judge (w : Placed (Well α)) (s : FlowState α) (limits : Limits α) (closed : List Nat) :
    Outcome α (Verdict × List (Notice α)) := do
  let potential := if limits.quantity = .potential then [.potentialLimit w.item.name] else []
  let rates ← Outcome.need (s.slot w.index).rates
  let before := potential ++ if limits.hasRate then limits.rateNotices rates else []
  if limits.hasRate && limits.isRateBroken rates then
    return (if limits.shutIn then .shut else .stop, before)
  if !limits.hasRatio then return (.keep, before)
  let candidates := openConnections w.item closed
  let connectionRates ← candidates.mapM fun (_, k) => s.ratesAt (w.first + k)
  let before := before ++ limits.ratioNotices rates connectionRates
  match limits.ratioViolation rates connectionRates with
  | none => return (.keep, before)
  | some v =>
    let (c, k) ← Outcome.need candidates[v.worst]?
    return (.close k c.cell v.lastConnection, before)

/-- The limits under which a well is to be judged: those of an open producer, if they limit anything. -/
def limitsFor? (c : Closures) (schedule : LimitSchedule α) (step : Nat) (w : Well α) : Option (Limits α) :=
  if w.isProducer && !c.isClosed w.name then (schedule.limitsAt w.name step).filter (·.hasAny) else none

/-- Judge a well and record the verdict. -/
def reviewWell (schedule : LimitSchedule α) (step : Nat) (s : FlowState α) (w : Placed (Well α)) :
    Attempt α (Closures × List (Notice α)) Unit := do
  let (c, notices) ← get
  match c.limitsFor? schedule step w.item with
  | none => return
  | some limits =>
    let (verdict, before) ← judge w s limits (c.closedCells w.item.name)
    set (c.record w.item.name verdict, notices ++ before ++ verdict.notices limits w.item.name)

/-- Review all producers at a report step. -/
def review (wells : Wells α) (s : FlowState α) (schedule : LimitSchedule α) (step : Nat) :
    Attempt α (Closures × List (Notice α)) Unit := do
  if s.bhp.length != wells.list.length then throw (.logic (.stateWells s.bhp.length wells.list.length))
  wells.placed.forM (reviewWell schedule step s)

end Closures

end BlackOilWells
