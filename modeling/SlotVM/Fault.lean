/-
What can go wrong while a program runs. A failure that the program can catch is *raised*: it
becomes a thrown string. Anything else is a *fault*, which ends the run.
-/
import SlotVM.Program.Instruction
import SlotVM.Constants
import SlotVM.Slots
import SlotVM.Value.Display

namespace SlotVM

/-- A failure that is thrown into the program. -/
inductive Raised
  | divisionByZero
  | overflow (symbol : Symbol)
  | negativeExponent
  | shiftAmount (amount : Int64)
  | indexOutOfBounds (position : Int64) (length : Nat)
deriving DecidableEq

/-- The string that is thrown. -/
def Raised.message : Raised → String
  | .divisionByZero => "division by zero"
  | .overflow symbol => s!"integer overflow in `{symbol.text}`"
  | .negativeExponent => "negative exponent in integer power"
  | .shiftAmount amount => s!"shift amount {amount.toInt} out of range"
  | .indexOutOfBounds position length =>
    s!"index {position.toInt} out of bounds for array of length {length}"

/-- The reason of a fault. -/
inductive Cause
  -- slots and constants
  | unwritten (ref : Nat)
  | constantUnset (id : Nat)
  | constantSet (id : Nat)
  -- operators
  | noOperator (key : OperatorKey)
  | operandCount (key : OperatorKey) (count : Nat)
  | binaryKinds (symbol : Symbol) (left right : Kind)
  | unaryKind (symbol : Symbol) (operand : Kind)
  -- composites
  | elementOutOfRange (position ref length : Nat)
  | noElements (value : Value)
  | noField (ref : Nat) (name : String)
  | noFields (name : String) (value : Value)
  | notIndexable (value : Value)
  | indexKind (value : Value)
  -- functions and names
  | notApplicable (value : Value)
  | notCallable (ref : Nat) (value : Value)
  | noFunction (id : Nat)
  | argumentCount (function : String) (params supplied : Nat)
  | noParam (index function supplied : Nat)
  | unbound (name : String)
  | noScope (name : String)
  | notFunctionFrame (index : Nat)
  -- control
  | condition (ref : Nat) (value : Value)
  | popsTooFar
  | exitLeavesCleanup (exit : LoopExit)
  | noLoop (exit : LoopExit) (depth : Nat)
  | returnLeavesCleanup
  | framesLeft (range : Span) (count : Nat)
  | noError
  -- the run as a whole
  | alreadyRunning
  | stillRunning
deriving Inhabited

/-- A value with its kind, as messages name it. -/
def Value.described (v : Value) : String := s!"{v.kind.name} `{v.display}`"

/-- The message for a reason. -/
def Cause.message : Cause → String
  | .unwritten ref => s!"Read of unwritten reference {refText ref}"
  | .constantUnset id => s!"Constant c{id} read before initialization"
  | .constantSet id => s!"Constant c{id} is already initialized"
  | .noOperator key => s!"No implementation registered for operator `{key.text}`"
  | .operandCount key count =>
    s!"Operator `{key.text}` expects {key.fixity.arity} operands, got {count}"
  | .binaryKinds symbol left right =>
    s!"Type mismatch in binary operation: `{symbol.text}` on {left.name} and {right.name}"
  | .unaryKind symbol operand => s!"Unsupported unary operation: `{symbol.text}` on {operand.name}"
  | .elementOutOfRange position ref length =>
    s!"Element {position} out of range for {refText ref} with {length} elements"
  | .noElements value => s!"Element access on {value.kind.name} value `{value.display}`"
  | .noField ref name => s!"Struct {refText ref} has no field `{name}`"
  | .noFields name value =>
    s!"Field access `.{name}` on {value.kind.name} value `{value.display}`"
  | .notIndexable value => s!"Indexing into {value.kind.name} value `{value.display}`"
  | .indexKind value => s!"Array index must be an integer, found {value.described}"
  | .notApplicable value => s!"Partial application of {value.kind.name} value `{value.display}`"
  | .notCallable ref value =>
    s!"Reference {refText ref} holds {value.described}, expected a function"
  | .noFunction id => s!"Function @{id} does not exist"
  | .argumentCount function params supplied =>
    s!"Function '{function}' takes {params} arguments, but {supplied} were supplied"
  | .noParam index function supplied =>
    s!"Parameter {index} out of range for function @{function} with {supplied} arguments"
  | .unbound name => s!"Unbound name `{name}`"
  | .noScope name => s!"No scope available to bind `{name}`"
  | .notFunctionFrame index => s!"Frame {index} is not a function frame"
  | .condition ref value =>
    s!"Branch condition {refText ref} holds {value.described}, expected a bool"
  | .popsTooFar => "PopFrame would remove the function frame or leave a finally block"
  | .exitLeavesCleanup exit => s!"{exit.name} would leave a finally block"
  | .noLoop exit depth => s!"{exit.name} {depth} has no enclosing loop"
  | .returnLeavesCleanup => "Return would leave a finally block"
  | .framesLeft range count => s!"Finally block {range.text} left {count} frames on the stack"
  | .noError => "ReadError with no error recorded"
  | .alreadyRunning => "Interpreter is already running"
  | .stillRunning => "Program is still running"

/-- A failed operation. -/
inductive Failure
  | raised (r : Raised)
  | fault (c : Cause)

/-- The message of a failure. -/
def Failure.message : Failure → String
  | .raised r => s!"runtime error: {r.message}"
  | .fault c => c.message

/-- The value of a slot, which must be written. -/
def Slots.read (s : Slots) (ref : Nat) : Except Cause Value :=
  match s.get? ref with
  | some v => .ok v
  | none => .error (.unwritten ref)

/-- The value of a constant, which must be set. -/
def Constants.read (c : Constants) (id : Nat) : Except Cause Value :=
  match c.get? id with
  | some v => .ok v
  | none => .error (.constantUnset id)

/-- Sets a constant, which must not be set yet. -/
def Constants.set (c : Constants) (id : Nat) (v : Value) : Except Cause Constants :=
  match c.set? id v with
  | some d => .ok d
  | none => .error (.constantSet id)

end SlotVM
