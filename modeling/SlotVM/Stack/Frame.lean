/-
Frames: what the blocks, calls, loops and try constructs that a run is inside of leave on the
stack. Every frame has a scope of names, which a try frame does not use.
-/
import SlotVM.Program.Instruction

namespace SlotVM

/-! ## Scopes -/

/-- The names bound in one frame, each once, and the slots they are bound to. -/
structure Scope where
  bindings : List (String × Nat)
deriving DecidableEq, Inhabited

namespace Scope

/-- No names. -/
def empty : Scope := ⟨[]⟩

/-- The slot that a name is bound to. -/
def get? (s : Scope) (name : String) : Option Nat := s.bindings.lookup name

/-- Whether a name is bound. -/
def contains (s : Scope) (name : String) : Bool := (s.get? name).isSome

/-- Binds a name, in place of an earlier binding of it. -/
def bind (s : Scope) (name : String) (ref : Nat) : Scope :=
  ⟨(name, ref) :: s.bindings.filter (·.1 ≠ name)⟩

end Scope

/-! ## Frames -/

/-- Where a caller goes on after a call. -/
structure Continuation where
  function : Nat
  /-- The height of the caller's frame in the stack. -/
  frame : Nat
  /-- The call instruction. -/
  pc : Nat
deriving DecidableEq, Repr, Inhabited

/-- A running function. -/
structure CallFrame where
  function : Nat
  /-- The values of the parameters. -/
  args : List Value
  /-- The slot that gets the returned value. -/
  returnTarget : Option Nat
  /-- The caller; the entry function has none. -/
  caller : Option Continuation
deriving Inhabited

/-- What put a frame on the stack. -/
inductive FrameKind
  | scope
  | call (call : CallFrame)
  | loop (start stop : Nat)
  /-- A try construct with the catch clauses and the finally block that it still has. -/
  | attempt (catches : List CatchClause) (cleanup : Option Span)
deriving Inhabited

/-- A frame of the stack. -/
structure Frame where
  scope : Scope
  kind : FrameKind
deriving Inhabited

namespace Frame

/-- A frame without names. -/
def ofKind (kind : FrameKind) : Frame := ⟨.empty, kind⟩

/-- Whether the frame belongs to a try construct. -/
def isTry (f : Frame) : Bool :=
  match f.kind with
  | .attempt _ _ => true
  | _ => false

/-- Whether the frame belongs to a function. -/
def isFunction (f : Frame) : Bool :=
  match f.kind with
  | .call _ => true
  | _ => false

end Frame

end SlotVM
