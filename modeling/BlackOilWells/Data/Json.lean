import BlackOilWells.Data.Datum
import BlackOilWells.Text.Number

/-!
# Documents in JSON

`Json.read?` reads a document.  A number without a point and an exponent is a whole number if it fits into a machine
word with or without a sign; any other number is the nearest double.  Fields keep their order and may repeat.

`Json.write` writes a document without blanks; how numbers are written is up to the caller.

Each reader takes a list of characters and returns what it has read with the rest of the list.  The readers of nested
values count down from the length of the document, which they cannot exceed, because every value takes a character.
-/

namespace BlackOilWells.Json

/-- Whether a character may stand between the parts of a document. -/
def isBlank (c : Char) : Bool := c = ' ' || c = '\n' || c = '\r' || c = '\t'

/-- Leave out blanks. -/
def skipBlanks (cs : List Char) : List Char := cs.dropWhile isBlank

/-! ### Texts -/

/-- The value of a hexadecimal digit. -/
def hexDigit? (c : Char) : Option Nat :=
  if c.isDigit then some (c.toNat - '0'.toNat)
  else if 'a' ≤ c ∧ c ≤ 'f' then some (c.toNat - 'a'.toNat + 10)
  else if 'A' ≤ c ∧ c ≤ 'F' then some (c.toNat - 'A'.toNat + 10)
  else none

/-- Read four hexadecimal digits. -/
def readUnit? : List Char → Option (Nat × List Char)
  | a :: b :: c :: d :: rest => do
    return ((((← hexDigit? a) * 16 + (← hexDigit? b)) * 16 + (← hexDigit? c)) * 16 + (← hexDigit? d), rest)
  | _ => none

/-- Read an escaped character after its `u`; a character beyond the first plane takes two units. -/
def readCodePoint? (cs : List Char) : Option (Char × List Char) := do
  let (high, rest) ← readUnit? cs
  if 0xD800 ≤ high ∧ high < 0xDC00 then
    match rest with
    | '\\' :: 'u' :: rest => do
      let (low, rest) ← readUnit? rest
      guard (0xDC00 ≤ low ∧ low < 0xE000)
      return (Char.ofNat (0x10000 + (high - 0xD800) * 0x400 + (low - 0xDC00)), rest)
    | _ => none
  else if 0xDC00 ≤ high ∧ high < 0xE000 then none
  else return (Char.ofNat high, rest)

/-- The character that an escape of one letter stands for. -/
def shortEscape? : Char → Option Char
  | '"' => some '"'
  | '\\' => some '\\'
  | '/' => some '/'
  | 'b' => some '\x08'
  | 'f' => some '\x0c'
  | 'n' => some '\n'
  | 'r' => some '\r'
  | 't' => some '\t'
  | _ => none

/-- Read one character of a text; a quote or a control character is none. -/
def readChar? : List Char → Option (Char × List Char)
  | '\\' :: 'u' :: rest => readCodePoint? rest
  | '\\' :: c :: rest => (shortEscape? c).map (·, rest)
  | c :: rest => if c = '"' || c = '\\' || c.toNat < 0x20 then none else some (c, rest)
  | [] => none

/-- Read a text after its opening quote. -/
def readText? : Nat → List Char → List Char → Option (String × List Char)
  | _, acc, '"' :: rest => some (String.ofList acc.reverse, rest)
  | 0, _, _ => none
  | n + 1, acc, cs => do
    let (c, rest) ← readChar? cs
    readText? n (c :: acc) rest

/-! ### Numbers -/

/-- Read a whole part: a single zero, or digits that do not start with one. -/
def readWhole? (cs : List Char) : Option (List Char × List Char) :=
  match spanDigits cs with
  | ([], _) => none
  | ('0' :: _ :: _, _) => none
  | (ds, rest) => some (ds, rest)

/-- Read the places after a point, if there is a point. -/
def readPlaces? : List Char → Option (List Char × List Char)
  | '.' :: rest =>
    match spanDigits rest with
    | ([], _) => none
    | (ds, rest) => some (ds, rest)
  | cs => some ([], cs)

/-- Read an exponent, if there is one. -/
def readPower? : List Char → Option (Option Int × List Char)
  | c :: rest =>
    if c = 'e' || c = 'E' then
      let (sign, rest) := match rest with
        | '-' :: rest => (['-'], rest)
        | '+' :: rest => (['+'], rest)
        | rest => ([], rest)
      let (ds, rest) := spanDigits rest
      (readExponent? (sign ++ ds)).map fun e => (some e, rest)
    else some (none, c :: rest)
  | [] => some (none, [])

/-- The number of a sign, digits, places and an exponent; it must be finite. -/
def number? (negative : Bool) (whole places : List Char) (exponent : Option Int) : Option Datum :=
  let n : Int := digitsValue whole
  let n := if negative then -n else n
  if places.isEmpty && exponent.isNone && -Int.pow 2 63 ≤ n && n < Int.pow 2 64 && !(negative && n = 0) then some (.int n)
  else
    let x := decimalToFloat (digitsValue (whole ++ places)) (exponent.getD 0 - places.length)
    if x.isFinite then some (.float (if negative then -x else x)) else none

/-- Read a number. -/
def readNumber? (cs : List Char) : Option (Datum × List Char) := do
  let (negative, cs) := match cs with
    | '-' :: cs => (true, cs)
    | cs => (false, cs)
  let (whole, cs) ← readWhole? cs
  let (places, cs) ← readPlaces? cs
  let (exponent, cs) ← readPower? cs
  return (← number? negative whole places exponent, cs)

/-! ### Values -/

mutual

/-- Read a value. -/
def readValue? : Nat → List Char → Option (Datum × List Char)
  | 0, _ => none
  | n + 1, cs =>
    match skipBlanks cs with
    | 'n' :: 'u' :: 'l' :: 'l' :: rest => some (.null, rest)
    | 't' :: 'r' :: 'u' :: 'e' :: rest => some (.bool true, rest)
    | 'f' :: 'a' :: 'l' :: 's' :: 'e' :: rest => some (.bool false, rest)
    | '"' :: rest => (readText? n [] rest).map fun (s, rest) => (.text s, rest)
    | '[' :: rest =>
      match skipBlanks rest with
      | ']' :: rest => some (.list [], rest)
      | rest => (readItems? n rest).map fun (items, rest) => (.list items, rest)
    | '\x7b' :: rest =>
      match skipBlanks rest with
      | '\x7d' :: rest => some (.record [], rest)
      | rest => (readFields? n rest).map fun (fields, rest) => (.record fields, rest)
    | rest => readNumber? rest

/-- Read the items of a list, up to its closing bracket. -/
def readItems? : Nat → List Char → Option (List Datum × List Char)
  | 0, _ => none
  | n + 1, cs => do
    let (item, rest) ← readValue? n cs
    match skipBlanks rest with
    | ',' :: rest =>
      let (items, rest) ← readItems? n rest
      return (item :: items, rest)
    | ']' :: rest => return ([item], rest)
    | _ => none

/-- Read the fields of a record, up to its closing brace. -/
def readFields? : Nat → List Char → Option (List (String × Datum) × List Char)
  | 0, _ => none
  | n + 1, cs => do
    let (name, rest) ← match skipBlanks cs with
      | '"' :: rest => readText? n [] rest
      | _ => none
    let (value, rest) ← match skipBlanks rest with
      | ':' :: rest => readValue? n rest
      | _ => none
    match skipBlanks rest with
    | ',' :: rest =>
      let (fields, rest) ← readFields? n rest
      return ((name, value) :: fields, rest)
    | '\x7d' :: rest => return ([(name, value)], rest)
    | _ => none

end

/-- Read a document. -/
def read? (s : String) : Option Datum :=
  let cs := s.toList
  match readValue? (cs.length + 1) cs with
  | some (d, rest) => if (skipBlanks rest).isEmpty then some d else none
  | none => none

/-! ### Writing -/

/-- A hexadecimal digit in lower case. -/
def hexDigit (n : Nat) : Char := if n < 10 then Char.ofNat ('0'.toNat + n) else Char.ofNat ('a'.toNat + (n - 10))

/-- A character of a text. -/
def writeChar (c : Char) : List Char :=
  match c with
  | '"' => ['\\', '"']
  | '\\' => ['\\', '\\']
  | '\x08' => ['\\', 'b']
  | '\x0c' => ['\\', 'f']
  | '\n' => ['\\', 'n']
  | '\r' => ['\\', 'r']
  | '\t' => ['\\', 't']
  | c => if c.toNat < 0x20 then ['\\', 'u', '0', '0', hexDigit (c.toNat / 16), hexDigit (c.toNat % 16)] else [c]

/-- A text in quotes. -/
def writeText (s : String) : String := "\"" ++ String.ofList (s.toList.flatMap writeChar) ++ "\""

/-- A list of written items. -/
def writeList (items : List String) : String := "[" ++ ",".intercalate items ++ "]"

/-- A record of written fields. -/
def writeRecord (fields : List (String × String)) : String :=
  "\x7b" ++ ",".intercalate (fields.map fun (name, value) => writeText name ++ ":" ++ value) ++ "\x7d"

mutual

/-- Write a document. -/
def write (whole : Int → String) (number : Float → String) : Datum → String
  | .null => "null"
  | .bool true => "true"
  | .bool false => "false"
  | .int n => whole n
  | .float x => number x
  | .text s => writeText s
  | .list items => writeList (writeItems whole number items)
  | .record fields => writeRecord (writeFields whole number fields)

/-- Write the items of a list. -/
def writeItems (whole : Int → String) (number : Float → String) : List Datum → List String
  | [] => []
  | d :: ds => write whole number d :: writeItems whole number ds

/-- Write the values of the fields of a record. -/
def writeFields (whole : Int → String) (number : Float → String) : List (String × Datum) → List (String × String)
  | [] => []
  | (name, d) :: ds => (name, write whole number d) :: writeFields whole number ds

end

end BlackOilWells.Json
