import BlackOilWells.Data.Datum

/-!
# Reading records

Readers turn a piece of data into a value of the domain, or reject it.  Where documents differ in what they accept, a
`Dialect` says so: what counts as a number or a text, and whether a record may also be written as the list of its
fields and a choice as a record.

A field that is not present takes its default if it has one.  Fields that nobody asks for are ignored, but a field that
is asked for may not repeat.
-/

namespace BlackOilWells

/-- What a document accepts. -/
structure Dialect where
  /-- Read a number. -/
  number : Datum → Option Float
  /-- Read a text. -/
  text : Datum → Option String
  /-- Whether a record may be written as the list of its fields in order. -/
  positional : Bool
  /-- Whether a choice may be written as a record with nothing in its only field. -/
  choiceRecord : Bool

namespace Datum

/-! ### Plain values -/

/-- A number, whole or not. -/
def number? : Datum → Option Float
  | .int n => some (Float.ofInt n)
  | .float x => some x
  | _ => none

/-- A text. -/
def text? : Datum → Option String
  | .text s => some s
  | _ => none

/-- A truth value. -/
def bool? : Datum → Option Bool
  | .bool b => some b
  | _ => none

/-- A whole number below a bound. -/
def natBelow? (bound : Nat) : Datum → Option Nat
  | .int (.ofNat n) => if n < bound then some n else none
  | _ => none

/-- A count that fits into a machine word. -/
def count? : Datum → Option Nat := natBelow? (.pow 2 64)

/-- A number that fits into half a machine word. -/
def id? : Datum → Option Nat := natBelow? (.pow 2 32)

/-- The items of a list, each read in the same way. -/
def list? {β : Type} (read : Datum → Option β) : Datum → Option (List β)
  | .list items => items.mapM read
  | _ => none

/-- A value or nothing. -/
def option? {β : Type} (read : Datum → Option β) : Datum → Option (Option β)
  | .null => some none
  | d => (read d).map some

/-- A choice among named values. -/
def choice? {β : Type} (dialect : Dialect) (options : List (String × β)) : Datum → Option β
  | .text s => options.lookup s
  | .record [(s, .null)] => if dialect.choiceRecord then options.lookup s else none
  | _ => none

end Datum

/-! ### Records -/

/-- The fields of a record by name. -/
abbrev Fields := String → Option Datum

namespace Dialect

/-- The fields of a record with the given names, in the order of a positional list. -/
def fields? (dialect : Dialect) (names : List String) : Datum → Option Fields
  | .record entries =>
    if names.all fun name => (entries.filter (·.1 == name)).length ≤ 1 then some fun name => entries.lookup name
    else none
  | .list items =>
    if dialect.positional && items.length ≤ names.length then some fun name => (names.zip items).lookup name
    else none
  | _ => none

end Dialect

namespace Fields

variable {β : Type}

/-- A field that has to be present. -/
def required (f : Fields) (name : String) (read : Datum → Option β) : Option β := (f name).bind read

/-- A field with a default. -/
def withDefault (f : Fields) (name : String) (default : β) (read : Datum → Option β) : Option β :=
  match f name with
  | some d => read d
  | none => some default

end Fields

end BlackOilWells
