/-
Instructions that compute a value and store it. They read everything first and store last, so one
that fails changes nothing.
-/
import SlotVM.Machine.Basic
import SlotVM.Operator.Registry

namespace SlotVM.Machine

/-- The value of a slot. -/
def load (m : Machine) (ref : Nat) : Except Failure Value := ofCause (m.slots.read ref)

/-- A result, or a fault for the given reason. -/
def orFault {α : Type} (c : Cause) : Option α → Except Failure α
  | some a => .ok a
  | none => .error (.fault c)

/-- The value of a parameter of the running function. -/
def param (m : Machine) (index : Nat) : Except Failure Value := do
  let call ← ofCause (m.stack.callFrame m.frame)
  orFault (.noParam index call.function call.args.length) call.args[index]?

/-- The slot that a field of the record in slot `ref` refers to. -/
def fieldRef (m : Machine) (ref : Nat) (name : String) : Except Failure Nat := do
  match ← m.load ref with
  | .record fields => orFault (.noField ref name) (fields.get? name)
  | v => .error (.fault (.noFields name v))

/-- The slot that the element at a fixed position of a tuple or an array refers to. -/
def elementRef (m : Machine) (ref position : Nat) : Except Failure Nat := do
  match ← m.load ref with
  | .tuple elements | .array elements =>
    orFault (.elementOutOfRange position ref elements.length) elements[position]?
  | v => .error (.fault (.noElements v))

/-- The element at a position, if the position is not negative and within the array. -/
def elementAt? (elements : List Nat) (position : Int64) : Option Nat :=
  if position < 0 then none else elements[position.toInt.toNat]?

/-- The slot that the array element at the position in slot `index` refers to. A position outside of
the array is a failure that the program can catch. -/
def indexRef (m : Machine) (ref index : Nat) : Except Failure Nat := do
  match ← m.load ref with
  | .array elements =>
    let v ← m.load index
    match v.integer? with
    | some position =>
      match elementAt? elements position with
      | some component => return component
      | none => .error (.raised (.indexOutOfBounds position elements.length))
    | none => .error (.fault (.indexKind v))
  | v => .error (.fault (.notIndexable v))

/-- What an assignment stores, with what an operator in it stores into the slot of its operand. -/
def evaluate (m : Machine) : Source → Except Failure Computed
  | .integer n => .ok (.pure (.integer n))
  | .float x => .ok (.pure (.float x))
  | .char c => .ok (.pure (.char c))
  | .bool b => .ok (.pure (.bool b))
  | .string s => .ok (.pure (.string s))
  | .array elements => .ok (.pure (.array elements))
  | .tuple elements => .ok (.pure (.tuple elements))
  | .record fields => .ok (.pure (.record (Fields.ofList fields)))
  | .function id => .ok (.pure (.function ⟨id, []⟩))
  | .copy ref => do return .pure (← m.load ref)
  | .param position => do return .pure (← m.param position)
  | .field ref name => do return .pure (← m.load (← m.fieldRef ref name))
  | .element ref position => do return .pure (← m.load (← m.elementRef ref position))
  | .index ref position => do return .pure (← m.load (← m.indexRef ref position))
  | .apply ref args => do
    match ← m.load ref with
    | .function closure => return .pure (.function (closure.apply args))
    | v => .error (.fault (.notApplicable v))
  | .binary left op right => op.execute m.slots [left, right]
  | .unary op operand => op.execute m.slots [operand]
  | .constant id => do return .pure (← ofCause (m.constants.read id))
  | .error => do return .pure (← orFault .noError m.pending.error?)
  | .named name => do
    let ref ← orFault (.unbound name) (m.stack.resolve? name)
    return .pure (← m.load ref)

/-- Stores a value in a slot. -/
def store (m : Machine) (ref : Nat) (v : Value) : Machine :=
  { m with slots := m.slots.write ref v }

/-- Stores what an assignment computed: first what its operator stores, then the value. -/
def storeComputed (m : Machine) (target : Nat) (c : Computed) : Machine :=
  { m with slots := (c.store m.slots).write target c.value }

end SlotVM.Machine
