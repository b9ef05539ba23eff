/-
The state of a run. Besides slots, constants, the stack and the place in the program, a machine
keeps the finally blocks that are running: each is a region, which remembers what it interrupted.
Nothing that happens in a region touches the frames that were on the stack when it began.
-/
import SlotVM.Stack.Basic
import SlotVM.Program.Validate

namespace SlotVM

/-- The error that was thrown last. The states are pairs of two registers of the engine: `error`, which
holds the error if there is one, and `error_context`, which is set while a handler is being searched. No
write of them makes the pair of an empty `error` and a set `error_context`. The registers are written
when a machine is made and when it starts, by a throw, by a catch, and at the beginning and the end of
a finally block. A block that runs to its end puts the pair back that it found (`Machine.restored`);
one that throws leaves the pair of the throw (`Machine.escaped`). -/
inductive Pending
  /-- No error was thrown: `error` is empty and `error_context` is not set. It is so in a new machine
  and at the start of a run (`Machine.ready`, `Machine.started`). -/
  | none
  /-- An error that was caught, or that is set aside while a finally block runs: `error` holds it, and
  `error_context` is not set. A catch clears `error_context` (`Machine.handling`), and so does a finally
  block that begins (`Machine.entered`); neither writes `error`. -/
  | settled (error : Value)
  /-- An error in search of a handler: `error` holds it, and `error_context` is set. A throw writes both
  (`Machine.throw`). -/
  | active (error : Value)
deriving Inhabited

namespace Pending

/-- The error: what `error` holds. -/
def error? : Pending → Option Value
  | .none => Option.none
  | .settled e | .active e => some e

/-- Whether a handler is being searched: whether `error_context` is set. -/
def isActive : Pending → Bool
  | .active _ => true
  | _ => false

/-- The error, not in search of a handler any more. -/
def settle : Pending → Pending
  | .active e => .settled e
  | p => p

end Pending

/-- What a finally block interrupts, to be taken up again when it is over. -/
inductive Transfer
  /-- The removal of the try frame. -/
  | pop
  /-- Leaving loops; `remaining` more of them before the last. -/
  | exitLoop (exit : LoopExit) (depth remaining : Nat)
  /-- Returning from the function with this value, by an instruction or by falling off its end. -/
  | ret (value : Option Value) (explicit : Bool)
  /-- The search for a handler, which continues with the clauses of the try construct itself. -/
  | unwind (scope : Scope) (catches : List CatchClause)
deriving Inhabited

/-- A running finally block. -/
structure Region where
  range : Span
  /-- The depth of the stack when the block began. -/
  floor : Nat
  /-- The function that the block belongs to. -/
  function : Nat
  /-- The height of that function's frame. -/
  frame : Nat
  /-- Where the interrupted transfer took place. -/
  resume : Nat
  /-- The error that was pending when the block began. -/
  pending : Pending
  transfer : Transfer
deriving Inhabited

/-- The state of a run. -/
structure Machine where
  slots : Slots
  constants : Constants
  stack : Stack
  /-- The running function. -/
  function : Nat
  /-- The height of its frame. -/
  frame : Nat
  /-- The next instruction. -/
  pc : Nat
  /-- The value that the last function returned. -/
  returned : Option Value
  pending : Pending
  /-- The running finally blocks, the innermost first. -/
  regions : List Region
deriving Inhabited

/-! ## Faults -/

/-- An instruction in whose execution a fault occurred. -/
structure Site where
  function : Nat
  pc : Nat
deriving DecidableEq, Repr, Inhabited

/-- A fault, with the instructions that were being executed, the outermost first. The machine that it
leaves is as the fault found it, but its finally blocks are not running any more. -/
structure Fault where
  sites : List Site
  cause : Cause
  left : Machine
deriving Inhabited

/-- The message for a site. -/
def Site.message (p : Program) (s : Site) : String :=
  let name := (p.functions[s.function]?.map FunctionDef.name).getD ""
  s!"Engine fault in {name} (@{s.function}) at instruction {s.pc}"

/-- The message for a fault: its sites, then its cause. -/
def Fault.message (p : Program) (f : Fault) : String :=
  ": ".intercalate (f.sites.map (Site.message p) ++ [f.cause.message])

/-- The instruction that was interrupted by a region. The search for a handler and the end of a
function are no instructions. -/
def Region.site? (r : Region) : Option Site :=
  match r.transfer with
  | .pop | .exitLoop _ _ _ | .ret _ true => some ⟨r.function, r.resume⟩
  | .ret _ false | .unwind _ _ => none

namespace Machine

/-- The depth below which nothing may be removed from the stack: that of the innermost region. -/
def floor (m : Machine) : Nat :=
  match m.regions with
  | [] => 0
  | r :: _ => r.floor

/-- The number of frames that may be removed. -/
def available (m : Machine) : Nat := m.stack.depth - m.floor

/-- A fault outside of any instruction of the innermost region. -/
def fault (m : Machine) (cause : Cause) : Fault :=
  ⟨(m.regions.filterMap Region.site?).reverse, cause, { m with regions := [] }⟩

/-- A fault in the current instruction. -/
def faultHere (m : Machine) (cause : Cause) : Fault :=
  ⟨(m.regions.filterMap Region.site?).reverse ++ [⟨m.function, m.pc⟩], cause, { m with regions := [] }⟩

/-- Whether the run is over, or has not begun. -/
def halted (m : Machine) : Bool := m.stack.isEmpty

/-- Makes `v` the pending error, in search of a handler. -/
def throw (m : Machine) (v : Value) : Machine := { m with pending := .active v }

/-- Goes on with the next instruction. -/
def next (m : Machine) : Machine := { m with pc := m.pc + 1 }

end Machine

end SlotVM
