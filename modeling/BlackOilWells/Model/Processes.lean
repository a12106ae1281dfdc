import BlackOilWells.Well.Error

/-!
# Cooperating processes

The wells of a field may be spread over several processes.  A `Communicator` is what one of them can do together with
the others: find the largest of all contributions and add them up.  All processes take part in each such reduction, so
a process that fails must still tell the others; `shareFailure` ends a step for all if it failed badly for one.
-/

namespace BlackOilWells

/-- The reductions over all processes, as seen by one of them.  A reduction is an effect, because it waits for the
other processes. -/
structure Communicator (m : Type → Type) (α : Type) where
  /-- The number of this process. -/
  rank : Nat
  /-- The number of processes. -/
  size : Nat
  /-- The largest of all contributions. -/
  max : α → m α
  /-- The sum of all contributions. -/
  sum : α → m α

namespace Communicator

variable {m : Type → Type} [Monad m] {α β : Type}

/-- A single process. -/
def serial : Communicator m α := ⟨0, 1, pure, pure⟩

/-- A process whose peers contribute fixed values to every reduction. -/
def withPeers [Scalar α] (rank size : Nat) (peerMax peerSum : α) : Communicator m α :=
  ⟨rank, size, fun x => pure (Scalar.max x peerMax), fun x => pure (x + peerSum)⟩

omit [Monad m] in
/-- Whether the process reports for all of them: it is the first. -/
def isFirst (c : Communicator m α) : Bool := c.rank == 0

/-- Whether an outcome must stop the other processes too. -/
def isFatal (r : Outcome α β) : Bool :=
  match r with
  | .error (.error e) => e.isFatal
  | _ => false

/-- Make a fatal failure of any process a failure of this one.  An own error is kept; an outcome that ended in an
access out of range does not reach the reduction. -/
def shareFailure [Scalar α] (c : Communicator m α) (r : Outcome α β) : m (Outcome α β) :=
  match r with
  | .error .outOfRange => pure r
  | _ => do
    let anyFailed ← c.max (if isFatal r then 1 else 0)
    match r with
    | .ok _ => if 0 < anyFailed then return .error (.error (.aborted (.peerFailed c.rank))) else return r
    | .error _ => return r

end Communicator

end BlackOilWells
