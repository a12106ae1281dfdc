/-!
# Data

Structured data as a document holds it: the values of a scenario file, of a request and of an answer.
-/

namespace BlackOilWells

/-- A piece of structured data. -/
inductive Datum where
  /-- Nothing. -/
  | null
  /-- A truth value. -/
  | bool (b : Bool)
  /-- A whole number that was written as one. -/
  | int (n : Int)
  /-- Any other number. -/
  | float (x : Float)
  | text (s : String)
  | list (items : List Datum)
  /-- Named fields in order. -/
  | record (fields : List (String × Datum))
deriving Inhabited

end BlackOilWells
