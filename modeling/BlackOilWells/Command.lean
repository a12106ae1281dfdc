import BlackOilWells.Report.Failure
import BlackOilWells.Report.Log
import BlackOilWells.Scenario.Build
import BlackOilWells.Scenario.Read

/-!
# The command line

Four commands on a scenario file: check it, assemble the wells and print their rates, print the potentials of the
connections, and evaluate the economic limits.  `Command.parse?` reads the arguments, and `Command.execute` gives what
is printed and with which exit code, from the contents of the file.
-/

namespace BlackOilWells

/-- A command. -/
inductive Command where
  /-- Build the simulation. -/
  | validate (path : String)
  /-- Assemble the wells and print their rates. -/
  | run (path : String) (days : Option Float) (iterations : Nat)
  /-- Print the potentials. -/
  | potentials (path : String)
  /-- Evaluate the economic limits at a report step. -/
  | economics (path : String) (step : Nat)

/-- What a command prints, and how it ends. -/
structure Printout where
  exitCode : Nat
  output : String
  errors : String
deriving DecidableEq, Repr

namespace Command

/-! ### Arguments -/

/-- The arguments of a command, sorted into options and others. -/
structure Arguments where
  /-- The options with their values. -/
  options : List (String × String)
  /-- The other arguments. -/
  others : List String

/-- Whether an argument looks like an option. -/
def isOption (arg : String) : Bool := arg.startsWith "-" && arg != "-"

/-- Split an argument at its first equals sign. -/
def splitValue (arg : String) : String × Option String :=
  let name := arg.toList.takeWhile (· != '=')
  match arg.toList.drop name.length with
  | [] => (arg, none)
  | _ :: value => (String.ofList name, some (String.ofList value))

/-- Sort arguments.  The value of an option follows an equals sign or is the next argument; all arguments after two
dashes are no options. -/
def sortArguments? (known : List String) : List String → Option Arguments
  | [] => some ⟨[], []⟩
  | "--" :: args => some ⟨[], args⟩
  | arg :: args =>
    if isOption arg then
      match splitValue arg with
      | (name, some value) =>
        if known.contains name then
          (sortArguments? known args).map fun a => { a with options := (name, value) :: a.options }
        else none
      | (name, none) =>
        match args with
        | value :: args =>
          if known.contains name && !isOption value then
            (sortArguments? known args).map fun a => { a with options := (name, value) :: a.options }
          else none
        | [] => none
    else (sortArguments? known args).map fun a => { a with others := arg :: a.others }

/-- The value of an option that may be given once, read in some way. -/
def option? {β : Type} (a : Arguments) (name : String) (read : String → Option β) : Option (Option β) :=
  match a.options.filter (·.1 == name) with
  | [] => some none
  | [(_, value)] => (read value).map some
  | _ => none

/-- The path, which has to be the only other argument. -/
def path? (a : Arguments) : Option String :=
  match a.others with
  | [path] => if path.isEmpty then none else some path
  | _ => none

/-- Read the arguments of the command line. -/
def parse? : List String → Option Command
  | "validate" :: args => do
    let a ← sortArguments? [] args
    return .validate (← path? a)
  | "run" :: args => do
    let a ← sortArguments? ["--dt-days", "--iterations"] args
    let days ← option? a "--dt-days" readFloat?
    let iterations ← option? a "--iterations" readCount?
    return .run (← path? a) days (iterations.getD 1)
  | "potentials" :: args => do
    let a ← sortArguments? [] args
    return .potentials (← path? a)
  | "econ" :: args => do
    let a ← sortArguments? ["--step"] args
    let step ← option? a "--step" readCount?
    return .economics (← path? a) (step.getD 0)
  | _ => none

/-- The path of the scenario file. -/
def path : Command → String
  | .validate path | .run path _ _ | .potentials path | .economics path _ => path

/-! ### Printing -/

/-- An operation that prints lines and may fail. -/
abbrev Printing (β : Type) := ExceptT (ScenarioError Float) (StateM (List String)) β

/-- The session of a scenario. -/
abbrev Running := Session Float (Option (VoidageGroup Float))

/-- Print a line. -/
def line (s : String) : Printing Unit := modify (· ++ [s])

/-- An outcome of an operation on wells. -/
def ofWell {β : Type} (r : Outcome Float β) : Printing β := ScenarioError.ofWell r

/-- Columns of given widths, to the left or to the right. -/
def columns (left right : List (Nat × String)) : String :=
  "  " ++ " ".intercalate ((left.map fun (w, s) => padRight w s) ++ right.map fun (w, s) => padLeft w s)

/-- A number with a given number of places. -/
def places (k : Nat) (x : Float) : String := (NumberFormat.fixed k).write x

/-- Surface rates as daily rates in columns. -/
def rateColumns (q : PerPhase Float) : List (Nat × String) :=
  q.toList.map fun x => (14, places 4 (Units.dailyOfPerSecond x))

/-- Print control, pressures and rates of a well. -/
def printWell (s : FlowState Float) (w : Well Float) (index : Nat) : Printing Unit := do
  let slot := s.slot index
  let control ← ofWell (slot.currentControl w)
  let rates ← ofWell (Outcome.need slot.rates)
  let bhp ← ofWell (Outcome.need slot.bhp)
  let thp ← ofWell (Outcome.need slot.thp)
  let pressure (p : Float) : Nat × String := (10, places 3 (Units.barOfPascal p))
  line (columns [(10, w.name), (16, control.kind.name)] ([pressure bhp, pressure thp] ++ rateColumns rates))

/-- Print control, pressures and rates of all wells. -/
def printWells (s : Running) : Printing Unit := do
  line ""
  line (columns [(10, "Well"), (16, "Control")]
    [(10, "BHP [bar]"), (10, "THP [bar]"), (14, "Water [m3/d]"), (14, "Oil [m3/d]"), (14, "Gas [m3/d]")])
  s.model.wells.list.zipIdx.forM fun (w, i) => printWell s.flow w i

/-! ### Commands -/

/-- The simulation of a document, with another time step if one is given. -/
def load (document : Option String) (days : Option Float) : Except (ScenarioError Float) (Simulation Float) :=
  match document with
  | none => .error .unreadable
  | some document =>
    match Scenario.parse? document with
    | none => .error .unparsable
    | some scenario => { scenario with days := days.getD scenario.days }.build

/-- Assemble for a number of iterations after the first. -/
def assembleMore (sim : Simulation Float) : (count iteration : Nat) → Running → Outcome Float Running
  | 0, _, s => .ok s
  | count + 1, iteration, s => do
    let (r, s) := Id.run (Session.assemble Communicator.serial sim.cells sim.dt iteration s)
    let _ ← r
    assembleMore sim count (iteration + 1) s

/-- Start a session and assemble for a number of iterations, at least one.  The report is that of the first. -/
def assemble (sim : Simulation Float) (iterations : Nat) : Outcome Float (Running × SolveReport) := do
  let s ← sim.start
  let (r, s) := Id.run (Session.assemble Communicator.serial sim.cells sim.dt 0 s)
  let report ← r
  return (← assembleMore sim (iterations - 1) 1 s, report)

/-- Check a scenario. -/
def printValidation (path : String) (document : Option String) : Printing Unit := do
  line s!"Validating scenario: {path}"
  let sim ← load document none
  line "✓ Scenario is valid"
  line s!"  Cells: {sim.cells.length}"
  line s!"  Wells: {sim.model.units.length}"
  line s!"  Connections: {sim.model.wells.numConnections}"

/-- Assemble the wells and print their rates. -/
def printRun (document : Option String) (days : Option Float) (iterations : Nat) : Printing Unit := do
  let sim ← load document days
  line s!"Assembling {sim.model.units.length} wells, dt = {places 3 sim.dt} s"
  let (s, report) ← ofWell (assemble sim iterations)
  if report.converged then line s!"✓ Local well solve converged in {report.iterations} iterations"
  else line s!"✗ Local well solve did not converge after {report.iterations} iterations"
  printWells s

/-- Print the potential rates of a connection. -/
def printPotential (s : FlowState Float) (w : Placed (Well Float)) (c : Connection Float) (k : Nat) :
    Printing Unit := do
  let q ← ofWell (Outcome.need (Stride.get? s.potentials (w.first + k)))
  line (columns [(10, w.item.name)] ((6, toString c.cell) :: rateColumns (.ofVec q)))

/-- Assemble the wells and print the potentials of the connections. -/
def printPotentials (document : Option String) : Printing Unit := do
  let sim ← load document none
  let (s, _) ← ofWell (assemble sim 1)
  let (r, flow) := Id.run (s.model.putPotentials sim.cells s.flow)
  ofWell r
  line ""
  line "Connection potentials [m3/day]:"
  line (columns [(10, "Well")] [(6, "Cell"), (14, "Water"), (14, "Oil"), (14, "Gas")])
  s.model.wells.placed.forM fun w => w.item.connections.zipIdx.forM fun (c, k) => printPotential flow w c k

/-- What is printed about closures. -/
def closureLines (wells : Wells Float) (c : Closures) : List String :=
  let closed (w : Well Float) : Option String :=
    match c.closedCells w.name with
    | [] => none
    | cells => some s!"  {w.name}: closed connections in cells {cells}"
  (c.shut.map fun name => s!"  {name}: shut") ++ (c.stopped.map fun name => s!"  {name}: stopped")
    ++ wells.list.filterMap closed

/-- Assemble the wells, print their rates and evaluate the economic limits. -/
def printEconomics (document : Option String) (step : Nat) : Printing Unit := do
  let sim ← load document none
  let (s, _) ← ofWell (assemble sim 1)
  printWells s
  let (r, closures, _) := Id.run (Closures.review s.model.wells s.flow sim.limits step (.empty, []))
  ofWell r
  line ""
  line s!"Economic limits at report step {step}:"
  match closureLines s.model.wells closures with
  | [] => line "  No well violates its limits"
  | lines => lines.forM line

/-- What a command prints for the contents of its file; without contents the file cannot be read. -/
def printing (document : Option String) : Command → Printing Unit
  | .validate path => printValidation path document
  | .run _ days iterations => printRun document days iterations
  | .potentials _ => printPotentials document
  | .economics _ step => printEconomics document step

/-- Execute a command on the contents of its file. -/
def execute (c : Command) (document : Option String) : Printout :=
  let (r, lines) := Id.run (c.printing document [])
  let output := String.join (lines.map (· ++ "\n"))
  match r with
  | .ok () => ⟨0, output, ""⟩
  | .error e => ⟨1, output, s!"Error: {e.describe}"⟩

/-- The printout of arguments that are no command. -/
def usage : Printout := ⟨2, "", "usage"⟩

end Command

end BlackOilWells
