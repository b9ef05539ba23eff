/-
The types that catch clauses name: any value, or the values of one kind.
-/
import SlotVM.Value.Basic

namespace SlotVM

/-- What a catch clause accepts. -/
inductive CatchType
  | any
  | kind (k : Kind)
deriving DecidableEq, Repr, Inhabited

namespace CatchType

/-- Whether a clause of this type accepts a value. -/
def accepts : CatchType → Value → Bool
  | .any, _ => true
  | .kind k, v => v.kind == k

/-- The name of a type. -/
def name : CatchType → String
  | .any => "any"
  | .kind k => k.name

/-- The type with a given name. Integers and functions also have a short name. -/
def ofName? : String → Option CatchType
  | "any" => some .any
  | "integer" | "int" => some (.kind .integer)
  | "float" => some (.kind .float)
  | "char" => some (.kind .char)
  | "bool" => some (.kind .bool)
  | "string" => some (.kind .string)
  | "array" => some (.kind .array)
  | "tuple" => some (.kind .tuple)
  | "struct" => some (.kind .record)
  | "function" | "fn" => some (.kind .function)
  | _ => none

/-- The message for a name that is no type. -/
def unknownMessage (name : String) : String := s!"Unknown catch type `{name}`"

end CatchType

end SlotVM
