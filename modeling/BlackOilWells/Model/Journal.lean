import BlackOilWells.Well.Control

/-!
# Notices

What the well model reports while it works.  Notices are collected in order and written out by the caller, so that
operations on many wells or processes do not write over one another.
-/

namespace BlackOilWells

/-- A ratio limit that is accepted but not evaluated. -/
inductive UnsupportedRatio where
  | gasOil
  | waterGas
  | gasLiquid
deriving DecidableEq, Repr

/-- A notice of the well model. -/
inductive Notice (α : Type) where
  /-- The well equations were solved on their own. -/
  | localSolveConverged (iterations : Nat)
  /-- The well equations could not be solved on their own. -/
  | localSolveFailed (iterations : Nat)
  /-- The heading of the residual norms of the active phases. -/
  | normHeading (phases : List Phase)
  /-- The residual norms of an iteration, one for each active phase. -/
  | norms (iteration : Nat) (values : List α)
  /-- A well has switched to another control. -/
  | switched (well : String) (before after : ControlKind α)
  /-- A producer is on a surface rate control that weights all three phases. -/
  | threePhaseRate (well : String)
  /-- A limit is to be evaluated on potentials; it is evaluated on rates. -/
  | potentialLimit (well : String)
  /-- A limit on the reservoir volume rate is not evaluated. -/
  | reservoirVolumeLimit
  /-- A ratio limit is not evaluated. -/
  | ratioLimit (ratio : UnsupportedRatio)
  /-- A well has too much water, but none of its open connections does. -/
  | waterCutWithoutConnection (cut limit : α)
  /-- The run is to end with a closed well; it goes on. -/
  | endRun (well : String)
  /-- A well is to be opened for a closed one; it is not. -/
  | followOn
  | wellShut (well : String)
  | wellStopped (well : String)
  | connectionClosed (well : String) (connection : Nat)
  /-- A well is shut because its last connection was closed. -/
  | lastConnectionClosed (well : String)
deriving Repr

end BlackOilWells
