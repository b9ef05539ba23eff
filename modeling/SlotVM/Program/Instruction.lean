/-
Instructions. Most of them assign to a slot, so what is assigned is a type of its own; the others
write through a composite, call, bind names, manage the frames of the stack, or transfer control.
-/
import SlotVM.CatchType
import SlotVM.Operator.Key

namespace SlotVM

/-- A range of instructions: from `start` up to, but not including, `stop`. -/
structure Span where
  start : Nat
  stop : Nat
deriving DecidableEq, Repr, Inhabited

/-- The text of a range. -/
def Span.text (s : Span) : String := s!"{s.start}..{s.stop}"

/-- A catch clause: the errors it accepts, and the first instruction of its handler. -/
structure CatchClause where
  type : CatchType
  handler : Nat
deriving DecidableEq, Repr, Inhabited

/-- The two ways to leave an iteration of a loop. -/
inductive LoopExit
  /-- Go on after the loop. -/
  | leave
  /-- Go on with the next iteration. -/
  | again
deriving DecidableEq, Repr, Inhabited

/-- The word for a way to leave an iteration. -/
def LoopExit.name : LoopExit → String
  | .leave => "Break"
  | .again => "Continue"

/-- Where a loop that runs from `start` to `stop` goes on. -/
def LoopExit.target (exit : LoopExit) (start stop : Nat) : Nat :=
  match exit with
  | .leave => stop
  | .again => start

/-- What an assignment stores. -/
inductive Source
  | integer (n : Int64)
  | float (x : Float)
  | char (c : Char)
  | bool (b : Bool)
  | string (s : String)
  | array (elements : List Nat)
  | tuple (elements : List Nat)
  | record (fields : List (String × Nat))
  | function (id : Nat)
  /-- The value of a slot. -/
  | copy (ref : Nat)
  /-- An argument of the running function. -/
  | param (index : Nat)
  /-- What a field of the record in slot `ref` refers to. -/
  | field (ref : Nat) (name : String)
  /-- What the element at a fixed position refers to. -/
  | element (ref : Nat) (position : Nat)
  /-- What the array element at the position held by slot `index` refers to. -/
  | index (ref : Nat) (index : Nat)
  /-- The function in slot `ref` with more arguments applied. -/
  | apply (ref : Nat) (args : List Nat)
  | binary (left : Nat) (op : OperatorKey) (right : Nat)
  | unary (op : OperatorKey) (operand : Nat)
  | constant (id : Nat)
  /-- The pending error. -/
  | error
  /-- The value of the slot that a name is bound to. -/
  | named (name : String)
deriving Inhabited

/-- The slots that a source mentions, in the order of its text. -/
def Source.refs : Source → List Nat
  | .array elements | .tuple elements => elements
  | .record fields => fields.map (·.2)
  | .copy ref | .field ref _ | .element ref _ => [ref]
  | .index ref position => [ref, position]
  | .apply ref args => ref :: args
  | .binary left _ right => [left, right]
  | .unary _ operand => [operand]
  | .integer _ | .float _ | .char _ | .bool _ | .string _ | .function _ | .param _ | .constant _
  | .error | .named _ => []

/-- An instruction. -/
inductive Instruction
  | assign (target : Nat) (source : Source)
  /-- Stores the value of slot `value` in the slot that a field refers to. -/
  | setField (ref : Nat) (name : String) (value : Nat)
  /-- Stores the value of slot `value` in the slot that an array element refers to. -/
  | setIndex (ref index value : Nat)
  | setConstant (id : Nat) (value : Nat)
  | call (target ref : Nat) (args : List Nat)
  | bind (name : String) (ref : Nat)
  | pushScope
  | pushLoop (start stop : Nat)
  | pushTry (catches : List CatchClause) (cleanup : Option Span)
  | popFrame
  | jump (target : Nat)
  /-- Jumps if the condition has the value `on`. -/
  | branch (on : Bool) (condition target : Nat)
  /-- Jumps if the constant is set. -/
  | branchConstant (id target : Nat)
  | nop
  | ret (value : Nat)
  | throw (value : Nat)
  | exitLoop (exit : LoopExit) (depth : Nat)
deriving Inhabited

/-- The slots that an instruction mentions, its target first. -/
def Instruction.refs : Instruction → List Nat
  | .assign target source => target :: source.refs
  | .setField ref _ value => [ref, value]
  | .setIndex ref index value => [ref, index, value]
  | .setConstant _ value => [value]
  | .call target ref args => target :: ref :: args
  | .bind _ ref => [ref]
  | .branch _ condition _ => [condition]
  | .ret value | .throw value => [value]
  | .pushScope | .pushLoop _ _ | .pushTry _ _ | .popFrame | .jump _ | .branchConstant _ _ | .nop
  | .exitLoop _ _ => []

end SlotVM
