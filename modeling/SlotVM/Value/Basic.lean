/-
Runtime values. A primitive value carries its content; a composite value carries the slots of its
components, and its equality is that of those slots, not of what they hold.
-/
import SlotVM.Value.Fields

namespace SlotVM

/-- The kind of a value, used by catch clauses and in messages. -/
inductive Kind
  | integer
  | float
  | char
  | bool
  | string
  | array
  | tuple
  | record
  | function
deriving DecidableEq, Repr, Inhabited

/-- The word for a kind. -/
def Kind.name : Kind → String
  | .integer => "integer"
  | .float => "float"
  | .char => "char"
  | .bool => "bool"
  | .string => "string"
  | .array => "array"
  | .tuple => "tuple"
  | .record => "struct"
  | .function => "function"

/-- A function together with the slots of the arguments already applied to it. -/
structure Closure where
  function : Nat
  captured : List Nat
deriving DecidableEq, Repr, Inhabited

/-- The closure with more arguments applied to it. -/
def Closure.apply (c : Closure) (args : List Nat) : Closure :=
  { c with captured := c.captured ++ args }

/-- Whether two lists are equally long and hold equal items at each position. -/
def sameItems {α : Type} [BEq α] (a b : List α) : Bool :=
  a.length == b.length && (a.zip b).all fun (x, y) => x == y

theorem sameItems_eq_beq {α : Type} [BEq α] : ∀ a b : List α, sameItems a b = (a == b)
  | [], [] => rfl
  | [], _ :: _ | _ :: _, [] => rfl
  | x :: a, y :: b => by
    have length : (a.length + 1 == b.length + 1) = (a.length == b.length) := by simp
    rw [List.cons_beq_cons, ← sameItems_eq_beq a b, sameItems, sameItems, List.zip_cons_cons, List.all_cons,
      List.length_cons, List.length_cons, length]
    exact Bool.and_left_comm ..

/-- A value that a slot can hold. -/
inductive Value
  | integer (n : Int64)
  | float (x : Float)
  | char (c : Char)
  | bool (b : Bool)
  | string (s : String)
  | array (elements : List Nat)
  | tuple (elements : List Nat)
  | record (fields : Fields)
  | function (closure : Closure)
deriving Inhabited

namespace Value

/-- The kind of a value. -/
def kind : Value → Kind
  | .integer _ => .integer
  | .float _ => .float
  | .char _ => .char
  | .bool _ => .bool
  | .string _ => .string
  | .array _ => .array
  | .tuple _ => .tuple
  | .record _ => .record
  | .function _ => .function

/-- Equality of values as programs see it: numbers, characters, booleans and strings by content
(so a float that is not a number differs from itself), composites by the slots they hold. -/
protected def beq : Value → Value → Bool
  | .integer a, .integer b => a == b
  | .float a, .float b => a == b
  | .char a, .char b => a == b
  | .bool a, .bool b => a == b
  | .string a, .string b => a == b
  | .array a, .array b => sameItems a b
  | .tuple a, .tuple b => sameItems a b
  | .record a, .record b => sameItems a.entries b.entries
  | .function a, .function b => a.function == b.function && a.captured == b.captured
  | _, _ => false

instance : BEq Value := ⟨Value.beq⟩

/-- The content of an integer. -/
def integer? : Value → Option Int64
  | .integer n => some n
  | _ => none

theorem integer?_eq_some {v : Value} {n : Int64} : v.integer? = some n ↔ v = .integer n := by
  cases v <;> simp [integer?]

/-- The content of a boolean. -/
def bool? : Value → Option Bool
  | .bool b => some b
  | _ => none

/-- The content of a function value. -/
def function? : Value → Option Closure
  | .function c => some c
  | _ => none

/-- The slots that a value mentions. -/
def refs : Value → List Nat
  | .array elements | .tuple elements => elements
  | .record fields => fields.entries.map (·.2)
  | .function closure => closure.captured
  | _ => []

end Value

end SlotVM
