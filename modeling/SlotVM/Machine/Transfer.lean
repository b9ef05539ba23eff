/-
Transfers of control that take frames off the stack: the search for a handler, leaving loops,
returning from a function, and removing one frame. A try frame with a finally block that is taken
off lets the block run first; the transfer is taken up again when the block is over, or given up if
it threw. The recursion is on the number of frames that may be taken off.
-/
import SlotVM.Machine.Event

namespace SlotVM.Machine

open Transition

/-- The region of a finally block that begins now. -/
def region (m : Machine) (range : Span) (transfer : Transfer) : Region where
  range
  floor := m.stack.depth
  function := m.function
  frame := m.frame
  resume := m.pc
  pending := m.pending
  transfer

/-- The machine at the first instruction of a finally block. -/
def entered (m : Machine) (range : Span) (transfer : Transfer) : Machine :=
  { m with
    pc := range.start
    pending := m.pending.settle
    regions := m.region range transfer :: m.regions }

/-- Begins a finally block: the machine runs it as a region that remembers the transfer. -/
def enter (m : Machine) (range : Span) (transfer : Transfer) : Transition :=
  note (.cleanupBegan m.function range m.stack.depth) (done (m.entered range transfer))

/-- The clause that catches the pending error, and that error. -/
def handler? (m : Machine) (catches : List CatchClause) : Option (CatchClause × Value) :=
  m.pending.error?.bind fun e => (catches.find? (·.type.accepts e)).map (·, e)

/-- The machine at a handler. The try frame is back on the stack, without clauses and without a
finally block, for the handler to remove. -/
def handling (m : Machine) (scope : Scope) (clause : CatchClause) (error : Value) : Machine :=
  { m with
    pc := clause.handler
    pending := .settled error
    stack := m.stack.push ⟨scope, .attempt [] none⟩ }

/-- Goes on at a handler. -/
def handle (m : Machine) (scope : Scope) (clause : CatchClause) (error : Value) : Transition :=
  note (.caught error clause) (done (m.handling scope clause error))

/-- Goes on where a caller made its call, without looking at what the callee did. -/
def goBack (m : Machine) : Option Continuation → Machine
  | some k => { m with function := k.function, frame := k.frame, pc := k.pc }
  | none => m

/-- Searches the top `n` frames for a handler of the pending error, taking them off. If there is
none, the error is still active afterwards. -/
def unwind (m : Machine) : (n : Nat) → Transition
  | 0 => done m
  | n + 1 =>
    match m.stack.pop? with
    | none => done m
    | some (f, rest) =>
      let m := { m with stack := rest }
      match f.kind with
      | .attempt catches (some range) => m.enter range (.unwind f.scope catches)
      | .attempt catches none =>
        match m.handler? catches with
        | some (clause, error) => m.handle f.scope clause error
        | none => m.unwind n
      | .call call => (m.goBack call.caller).unwind n
      | .scope | .loop _ _ => m.unwind n

/-- Leaves `remaining` loops and then one more, among the top `n` frames. It fails at the frame of a
function. -/
def exitLoop (m : Machine) (exit : LoopExit) (depth : Nat) (remaining : Nat) :
    (n : Nat) → Transition
  | 0 => fail (m.faultHere (.exitLeavesCleanup exit))
  | n + 1 =>
    match m.stack.pop? with
    | none => fail (m.faultHere (.noLoop exit depth))
    | some (f, rest) =>
      if f.isFunction then fail (m.faultHere (.noLoop exit depth))
      else match f.kind with
      | .loop start stop =>
        match remaining with
        | 0 =>
          let target := exit.target start stop
          note (.loopLeft exit depth target) (done { m with stack := rest, pc := target })
        | remaining + 1 => { m with stack := rest }.exitLoop exit depth remaining n
      | .attempt _ (some range) =>
        { m with stack := rest }.enter range (.exitLoop exit depth remaining)
      | .call _ | .attempt _ none | .scope =>
        { m with stack := rest }.exitLoop exit depth remaining n

/-- The machine after a call: the slot of the call holds the returned value. Without a value the slot
is left alone. -/
def received (m : Machine) (call : CallFrame) (value : Option Value) (k : Continuation) : Machine :=
  let slots := match call.returnTarget, value with
    | some target, some v => m.slots.write target v
    | _, _ => m.slots
  ({ m with slots, returned := value }.goBack (some k)).next

/-- Gives the returned value to the caller of a function whose frame has been taken off, and goes on
after the call. -/
def deliver (m : Machine) (call : CallFrame) (value : Option Value) : Transition :=
  match call.caller with
  | none => note (.entryReturned value) (done { m with returned := value })
  | some k => note (.returned call.function k.function k.pc) (done (m.received call value k))

/-- Returns from the running function, whose frame is among the top `n`. -/
def leaveFunction (m : Machine) (value : Option Value) (explicit : Bool) : (n : Nat) → Transition
  | 0 =>
    fail (if explicit then m.faultHere .returnLeavesCleanup else m.fault .returnLeavesCleanup)
  | n + 1 =>
    match m.stack.pop? with
    | none =>
      fail (if explicit then m.faultHere .returnLeavesCleanup else m.fault .returnLeavesCleanup)
    | some (f, rest) =>
      let m := { m with stack := rest }
      match f.kind with
      | .call call => m.deliver call value
      | .attempt _ (some range) => m.enter range (.ret value explicit)
      | .attempt _ none | .scope | .loop _ _ => m.leaveFunction value explicit n

/-- Begins to return. -/
def beginReturn (m : Machine) (value : Option Value) (explicit : Bool) : Transition :=
  { m with returned := none }.leaveFunction value explicit m.available

/-- Removes the top frame, which must be above the frame of the running function. -/
def popFrame (m : Machine) : Transition :=
  if m.stack.depth ≤ max m.floor (m.frame + 1) then fail (m.faultHere .popsTooFar)
  else match m.stack.pop? with
    | none => fail (m.faultHere .popsTooFar)
    | some (f, rest) =>
      let m := { m with stack := rest }
      match f.kind with
      | .attempt _ (some range) => m.enter range .pop
      | _ => done m.next

/-- Takes up the transfer that a finally block interrupted. -/
def resume (m : Machine) : Transfer → Transition
  | .pop => done m.next
  | .exitLoop exit depth remaining => m.exitLoop exit depth remaining m.available
  | .ret value explicit => m.leaveFunction value explicit m.available
  | .unwind scope catches =>
    match m.handler? catches with
    | some (clause, error) => m.handle scope clause error
    | none => m.unwind m.available

/-- The machine that a block which ran to its end goes back to. The error that was pending before the
block is pending again. -/
def restored (m : Machine) (r : Region) (outer : List Region) : Machine :=
  { m with pc := r.resume, pending := r.pending, regions := outer }

/-- Ends a region whose block ran to its end. Every frame that the block pushed must be gone. -/
def complete (m : Machine) (r : Region) (outer : List Region) : Transition :=
  if m.stack.depth ≠ r.floor then
    fail (m.fault (.framesLeft r.range (m.stack.depth - r.floor)))
  else (m.restored r outer).resume r.transfer

/-- The machine that a block which threw an error goes back to. The error is still pending, in place
of the one before the block. -/
def escaped (m : Machine) (r : Region) (outer : List Region) : Machine :=
  { m with function := r.function, frame := r.frame, pc := r.resume, regions := outer }

/-- Ends a region whose block threw an error that it did not catch. The interrupted transfer is given
up. -/
def abandon (m : Machine) (r : Region) (outer : List Region) : Transition :=
  let m := m.escaped r outer
  note (.cleanupThrew r.range) <|
    match r.transfer with
    | .unwind _ _ => m.unwind m.available
    | .ret _ _ => done { m with returned := none }
    | .pop | .exitLoop _ _ _ => done m

end SlotVM.Machine
