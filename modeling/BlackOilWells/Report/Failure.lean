import BlackOilWells.Report.Message
import BlackOilWells.Scenario.Basic
import BlackOilWells.Text.Quoted

/-!
# Failures

What is reported when a scenario cannot be simulated: a message for readers, and the description that the command line
prints, which names the kind of each error and quotes its text.
-/

namespace BlackOilWells

/-- What does not fit together. -/
def ScenarioCause.text : ScenarioCause → String
  | .noInjectionPhase well => s!"injector {well} needs an injection_phase"
  | .limitsForUnknownWell well => s!"economic limits for unknown well {well}"
  | .unknownMember group well => s!"group {group} lists unknown well {well}"

/-- A kind of error with its text. -/
def describeText (kind text : String) : String := kind ++ " \x7b what: " ++ quoted text ++ " \x7d"

/-- A fluid error, described. -/
def FluidError.describe : FluidError → String
  | .nonPhysical quantity => describeText "NonPhysical" quantity
  | .regionOutOfRange region count =>
    "RegionOutOfRange \x7b region: " ++ toString region ++ ", len: " ++ toString count ++ " \x7d"
  | .invalid reason => describeText "InvalidArg" reason

namespace WellError

/-- A well error, described. -/
def describe : WellError Float → String
  | .numerical cause => describeText "NumericalProblem" cause.text
  | .logic cause => describeText "Logic" cause.text
  | .invalid cause => describeText "InvalidArg" cause.text
  | .aborted cause => describeText "StepAborted" cause.text
  | .fluid cause => s!"Fluid({cause.describe})"

end WellError

namespace Fault

/-- A fault, described. -/
def describe : Fault Float → String
  | .error e => e.describe
  | .outOfRange => "OutOfRange"

/-- The message of a fault. -/
def message : Fault Float → String
  | .error e => e.message
  | .outOfRange => ""

end Fault

namespace ScenarioError

/-- The message of the error. -/
def message : ScenarioError Float → String
  | .unreadable | .unparsable => ""
  | .inconsistent cause => s!"Invalid scenario: {cause.text}"
  | .fluid cause => s!"Fluid error: {cause.message}"
  | .well fault => s!"Well model error: {fault.message}"

/-- The error, described. -/
def describe : ScenarioError Float → String
  | .unreadable => "ScenarioRead"
  | .unparsable => "ScenarioParse"
  | .inconsistent cause => s!"Invalid({quoted cause.text})"
  | .fluid cause => s!"Fluid({cause.describe})"
  | .well fault => s!"Well({fault.describe})"

end ScenarioError

end BlackOilWells
