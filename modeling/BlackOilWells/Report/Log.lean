import BlackOilWells.Model.Journal
import BlackOilWells.Text.Number

/-!
# Logs

A log keeps entries in order until they are written out.  `Notice.entry` gives the notices of the well model their
level, their tag and their wording.
-/

namespace BlackOilWells

/-- How urgent an entry is, in increasing order. -/
inductive LogLevel where
  | debug
  | note
  | info
  | warning
  | error
deriving DecidableEq, Repr

namespace LogLevel

/-- All levels in increasing order. -/
def all : List LogLevel := [.debug, .note, .info, .warning, .error]

/-- The name of the level. -/
def name : LogLevel → String
  | .debug => "debug"
  | .note => "note"
  | .info => "info"
  | .warning => "warning"
  | .error => "error"

end LogLevel

/-- An entry of a log. -/
structure LogEntry where
  /-- How urgent it is. -/
  level : LogLevel
  /-- The category of a warning or an error. -/
  tag : Option String
  message : String
deriving DecidableEq, Repr

/-- Entries in order. -/
structure Log where
  entries : List LogEntry
deriving Repr

namespace Log

/-- The log without entries. -/
def empty : Log := ⟨[]⟩

/-- Add an entry. -/
def add (l : Log) (e : LogEntry) : Log := ⟨l.entries ++ [e]⟩

/-- Add all entries of another log. -/
def append (l other : Log) : Log := ⟨l.entries ++ other.entries⟩

/-- Whether an entry has a tag. -/
def hasTag (l : Log) (tag : String) : Bool := l.entries.any (·.tag == some tag)

/-- The levels of the entries in increasing order, each as often as it occurs. -/
def levels (l : Log) : List LogLevel :=
  LogLevel.all.flatMap fun level => (l.entries.filter (·.level == level)).map (·.level)

end Log

/-! ### Notices -/

namespace UnsupportedRatio

/-- The tag of the warning. -/
def tag : UnsupportedRatio → String
  | .gasOil => "NOT_SUPPORTING_MAX_GOR"
  | .waterGas => "NOT_SUPPORTING_MAX_WGR"
  | .gasLiquid => "NOT_SUPPORTING_MAX_GLR"

/-- The name of the ratio. -/
def name : UnsupportedRatio → String
  | .gasOil => "Gas-Oil"
  | .waterGas => "Water-Gas"
  | .gasLiquid => "Gas-Liquid"

end UnsupportedRatio

namespace Notice

/-- The heading of the columns of residual norms. -/
def normHeader (phases : List Phase) : String :=
  "Iter" ++ String.join (phases.map fun p => s!"   W-FLUX({p.name})")

/-- A residual norm in eleven columns. -/
def normColumn (x : Float) : String := padLeft 11 ((NumberFormat.scientificPlaces 3).write x)

/-- A row of residual norms: the iteration in four columns, and a column for each norm. -/
def normRow (column : Float → String) (iteration : Nat) (values : List Float) : String :=
  padLeft 4 (toString iteration) ++ String.join (values.map column)

/-- The log entry of a notice. -/
def entry : Notice Float → LogEntry
  | .localSolveConverged n =>
    ⟨.debug, none, s!"Well equation solution gets converged with {n} iterations"⟩
  | .localSolveFailed n =>
    ⟨.debug, none, s!"Well equation solution failed in getting converged with {n} iterations"⟩
  | .normHeading phases => ⟨.note, none, normHeader phases⟩
  | .norms iteration values => ⟨.note, none, normRow normColumn iteration values⟩
  | .switched well before after =>
    ⟨.info, none, s!"    Switching control mode for well {well} from {before.name} to {after.name}"⟩
  | .threePhaseRate well =>
    ⟨.warning, some "UNVERIFIED_THREE_PHASE_RATE",
      s!"three-phase surface rate control of well {well} is not verified"⟩
  | .potentialLimit well =>
    ⟨.warning, some "NOT_SUPPORTING_POTN",
      s!"POTN limit for well {well} is not supported for the moment. " ++
        "All the limits will be evaluated based on RATE."⟩
  | .reservoirVolumeLimit =>
    ⟨.warning, some "NOT_SUPPORTING_MIN_RESERVOIR_FLUID_RATE",
      "Minimum reservoir fluid production rate limit is not supported yet"⟩
  | .ratioLimit ratio =>
    ⟨.warning, some ratio.tag, s!"the support for max {ratio.name} ratio is not implemented yet!"⟩
  | .waterCutWithoutConnection cut limit =>
    ⟨.warning, some "WATER_CUT_WITHOUT_OFFENDING_CONNECTION",
      s!"water cut {(NumberFormat.fixed 4).write cut} exceeds the limit {NumberFormat.plain.write limit} " ++
        "but no open connection has a positive water cut"⟩
  | .endRun well =>
    ⟨.warning, some "NOT_SUPPORTING_ENDRUN",
      "ending run after well closed due to economic limits is not supported yet, " ++
        s!"the program will keep running after {well} is closed"⟩
  | .followOn =>
    ⟨.warning, some "NOT_SUPPORTING_FOLLOWONWELL",
      "opening following on well after well closed is not supported yet"⟩
  | .wellShut well => ⟨.info, none, s!"well {well} will be shut in due to economic limit"⟩
  | .wellStopped well => ⟨.info, none, s!"well {well} will be stopped due to economic limit"⟩
  | .connectionClosed well k =>
    ⟨.info, none, s!"Connection {k} for well {well} will be closed due to economic limit"⟩
  | .lastConnectionClosed well => ⟨.info, none, s!"{well} will be shut due to the last connection closed"⟩

end Notice

end BlackOilWells
