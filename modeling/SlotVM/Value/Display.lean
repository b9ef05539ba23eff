/-
The two shallow texts of a value. `display` is how messages show it, with the slots of a composite
as `#0`; `listing` is how program listings and run reports show it, with the name of its
constructor.
-/
import SlotVM.Value.Basic
import SlotVM.Decimal.FloatText
import SlotVM.Text.Quoted

namespace SlotVM

open Decimal Text

/-- A slot as messages name it. -/
def refText (id : Nat) : String := s!"#{id}"

/-- Parts between brackets, separated by commas. -/
def bracketed (opening : String) (parts : List String) (closing : String) : String :=
  opening ++ commaSeparated parts ++ closing

/-- A list of numbers in listings. -/
def listText (ids : List Nat) : String := bracketed "[" (ids.map toString) "]"

/-- The opening of a record, also before no field at all. -/
def recordOpening : String := "\x7b "
/-- The end of a record. -/
def recordClosing : String := " \x7d"

namespace Value

/-- The text of a value, composites showing their slots. -/
def display : Value → String
  | .integer n => toString n.toInt
  | .float x => floatText x
  | .char c => quoteChar c
  | .bool b => toString b
  | .string s => quoteString s
  | .array elements => bracketed "[" (elements.map refText) "]"
  | .tuple elements => bracketed "(" (elements.map refText) ")"
  | .record fields =>
    bracketed recordOpening (fields.entries.map fun p => p.1 ++ ": " ++ refText p.2) recordClosing
  | .function c =>
    let captured := if c.captured.isEmpty then "" else bracketed " " (c.captured.map refText) ""
    s!"<fn @{c.function}{captured}>"

/-- The text of a value with its constructor. -/
def listing : Value → String
  | .integer n => s!"Integer({n.toInt})"
  | .float x => s!"Float({floatText x})"
  | .char c => s!"Char({quoteChar c})"
  | .bool b => s!"Bool({b})"
  | .string s => s!"String({quoteString s})"
  | .array elements => s!"Array({listText elements})"
  | .tuple elements => s!"Tuple({listText elements})"
  | .record fields =>
    "Struct(\x7b" ++ commaSeparated (fields.entries.map fun p => s!"{quoteString p.1}: {p.2}") ++
      "\x7d)"
  | .function c =>
    s!"Function(FunctionValue \x7b function: {c.function}, captured: {listText c.captured} \x7d)"

end Value

end SlotVM
