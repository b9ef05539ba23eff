/-
The deep text of a value: components of composites are shown by what their slots hold, down to a
fixed depth, so that values which contain themselves have a text too.
-/
import SlotVM.Slots
import SlotVM.Value.Display

namespace SlotVM

/-- How many composites may enclose a component that is still shown in full. -/
def renderDepth : Nat := 16

/-- The text that stands for components below the last level. -/
def cutText : String := "..."

/-- The text that stands for a component in an unwritten slot. -/
def unwrittenText (id : Nat) : String := s!"#{id}?"

/-- Puts a composite together from the texts of its components; other values have their shallow
text. Slots captured by functions are not components. -/
def Value.assemble (component : Nat → String) : Value → String
  | .array elements => bracketed "[" (elements.map component) "]"
  | .tuple elements => bracketed "(" (elements.map component) ")"
  | .record fields =>
    bracketed recordOpening (fields.entries.map fun p => p.1 ++ ": " ++ component p.2) recordClosing
  | v => v.display

/-- The text of a value whose components may be followed `levels` levels down. -/
def Value.renderAt (s : Slots) : (levels : Nat) → Value → String
  | 0, v => v.assemble fun id =>
    match s.get? id with
    | some _ => cutText
    | none => unwrittenText id
  | levels + 1, v => v.assemble fun id =>
    match s.get? id with
    | some w => w.renderAt s levels
    | none => unwrittenText id

/-- The deep text of a value. -/
def Value.render (s : Slots) (v : Value) : String := v.renderAt s renderDepth

end SlotVM
