/-
One transition of a machine: an instruction, a stretch of the search for a handler, or the end of a
finally block.
-/
import SlotVM.Machine.Assign
import SlotVM.Machine.Transfer

namespace SlotVM.Machine

open Transition

/-- Ends an instruction that only computes and stores: `change` stores what was computed. The engine
stores nothing before the last thing in such an instruction that can fail (for operators see
`Computed`), so a failure leaves slots and constants as they are. A raised failure is thrown as a
string. -/
@[inline] def conclude {α : Type} (m : Machine) (r : Except Failure α)
    (change : Machine → α → Machine) : Transition :=
  match r with
  | .ok a => done (change m a).next
  | .error (.raised failure) =>
    let error := Value.string failure.message
    note (.raised m.function m.pc failure) (note (.thrown error m.slots) (done (m.throw error)))
  | .error (.fault c) => fail (m.faultHere c)

/-- Goes on with a result, or ends the run with a fault in the current instruction. -/
@[inline] def withResult {α : Type} (m : Machine) (r : Except Cause α)
    (k : Machine → α → Transition) : Transition :=
  match r with
  | .ok a => k m a
  | .error c => fail (m.faultHere c)

/-- The truth value that a branch depends on. -/
def condition (m : Machine) (ref : Nat) : Except Cause Bool := do
  let v ← m.slots.read ref
  match v.bool? with
  | some b => .ok b
  | none => .error (.condition ref v)

/-- The function that a call enters, its definition, and the values of its parameters. Arguments
applied earlier come first, and all are read now. -/
def callee (p : Program) (m : Machine) (ref : Nat) (args : List Nat) :
    Except Cause (Nat × List Value) := do
  let v ← m.slots.read ref
  match v.function? with
  | none => .error (.notCallable ref v)
  | some closure =>
    match p.functions[closure.function]? with
    | none => .error (.noFunction closure.function)
    | some definition =>
      let values ← (closure.captured ++ args).mapM m.slots.read
      if values.length = definition.params then return (closure.function, values)
      else .error (.argumentCount definition.name definition.params values.length)

/-- The machine at the first instruction of a function that it calls. -/
def calling (m : Machine) (target function : Nat) (args : List Value) : Machine :=
  { m with
    stack := m.stack.push <| .ofKind <| .call
      { function, args, returnTarget := some target,
        caller := some ⟨m.function, m.frame, m.pc⟩ }
    function
    frame := m.stack.depth
    pc := 0 }

/-- Enters a function. -/
def enterFunction (m : Machine) (target function : Nat) (args : List Value) : Transition :=
  note (.called function m.stack.depth) (done (m.calling target function args))

/-- Pushes a frame. -/
def pushFrame (m : Machine) (kind : FrameKind) : Machine :=
  { m with stack := m.stack.push (.ofKind kind) }

/-- The slot that an instruction stores into, and the value. -/
def fieldStore (m : Machine) (ref : Nat) (name : String) (value : Nat) :
    Except Failure (Nat × Value) := do
  let component ← m.fieldRef ref name
  return (component, ← m.load value)

/-- The slot of an array element that an instruction stores into, and the value. -/
def indexStore (m : Machine) (ref index value : Nat) : Except Failure (Nat × Value) := do
  let component ← m.indexRef ref index
  return (component, ← m.load value)

/-- The constants after one more is set. -/
def constantStore (m : Machine) (id value : Nat) : Except Failure Constants := do
  let v ← m.load value
  ofCause (m.constants.set id v)

/-- Executes an instruction. -/
def perform (p : Program) (m : Machine) : Instruction → Transition
  | .assign target source =>
    m.conclude (m.evaluate source) fun m computed => m.storeComputed target computed
  | .setField ref name value =>
    m.conclude (m.fieldStore ref name value) fun m (component, v) => m.store component v
  | .setIndex ref index value =>
    m.conclude (m.indexStore ref index value) fun m (component, v) => m.store component v
  | .setConstant id value =>
    m.conclude (m.constantStore id value) fun m constants => { m with constants }
  | .call target ref args =>
    m.withResult (m.callee p ref args) fun m (function, values) =>
      m.enterFunction target function values
  | .bind name ref =>
    m.withResult (m.stack.bind name ref) fun m stack => done { m with stack }.next
  | .pushScope => done (m.pushFrame .scope).next
  | .pushLoop start stop => done (m.pushFrame (.loop start stop)).next
  | .pushTry catches cleanup => done (m.pushFrame (.attempt catches cleanup)).next
  | .popFrame => m.popFrame
  | .jump target => done { m with pc := target }
  | .branch on ref target =>
    m.withResult (m.condition ref) fun m b =>
      done (if b = on then { m with pc := target } else m.next)
  | .branchConstant id target =>
    done (if m.constants.contains id then { m with pc := target } else m.next)
  | .nop => done m.next
  | .ret ref => m.withResult (m.slots.read ref) fun m v => m.beginReturn (some v) true
  | .throw ref =>
    m.withResult (m.slots.read ref) fun m v => note (.thrown v m.slots) (done (m.throw v))
  | .exitLoop exit depth => m.exitLoop exit depth depth m.available

/-- Executes the current instruction, or returns without a value at the end of the function. -/
def execute (p : Program) (m : Machine) : Transition :=
  match p.functions[m.function]? with
  | none => fail (m.fault (.noFunction m.function))
  | some f =>
    match f.code[m.pc]? with
    | none => note (.fellOff m.function) (m.beginReturn none false)
    | some i => note (.executing m.function m.pc i) (m.perform p i)

/-- One transition. A region ends when an active error has reached its floor, or when the function
that its block belongs to has come to the end of the block. -/
def advance (p : Program) (m : Machine) : Transition :=
  match m.regions with
  | [] => if m.pending.isActive then m.unwind m.stack.depth else m.execute p
  | r :: outer =>
    if m.pending.isActive then
      if m.stack.depth ≤ r.floor then m.abandon r outer
      else m.unwind (m.stack.depth - r.floor)
    else if m.frame = r.frame ∧ r.range.stop ≤ m.pc then m.complete r outer
    else m.execute p

end SlotVM.Machine
