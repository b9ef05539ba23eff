/-
Validation: every jump target, loop bound, handler and finally range lies within its function, and
every function that is named exists. The first defect in the order of the program is reported.
-/
import SlotVM.Program.Listing

namespace SlotVM

/-- What an instruction names a target for. -/
inductive TargetRole
  | jump
  | loopStart
  | loopEnd
  | handler
  | cleanupEnd
deriving DecidableEq, Repr, Inhabited

/-- The word for a role in messages. -/
def TargetRole.name : TargetRole → String
  | .jump => "Jump"
  | .loopStart => "Loop start"
  | .loopEnd => "Loop end"
  | .handler => "Handler"
  | .cleanupEnd => "Finally end"

/-- What is wrong with an instruction. -/
inductive Defect
  | outside (role : TargetRole) (target length : Nat)
  | reversed (range : Span)
  | noFunction (id : Nat)
deriving DecidableEq, Repr

/-- Why a program is refused. -/
inductive Invalid
  | noEntry
  | defect (function : String) (id pc : Nat) (d : Defect)
deriving DecidableEq, Repr

/-- The message for a refused program. -/
def Invalid.message : Invalid → String
  | .noEntry => "Program has no entry function"
  | .defect function id pc d =>
    let place := s!"{function}@{id}:{pc}"
    match d with
    | .outside role target length =>
      s!"{role.name} target {target} at {place} is outside the function ({length} instructions)"
    | .reversed range => s!"Finally range {range.text} at {place} is empty or reversed"
    | .noFunction callee => s!"Function @{callee} referenced at {place} does not exist"

/-- A target beyond the end of a function with `length` instructions. The end itself is a target. -/
def outside? (length : Nat) (role : TargetRole) (target : Nat) : Option Defect :=
  if length < target then some (.outside role target length) else none

/-- The defect of a finally range. -/
def Span.defect? (length : Nat) (range : Span) : Option Defect :=
  (outside? length .cleanupEnd range.stop).or
    (if range.stop < range.start then some (.reversed range) else none)

/-- The first defect of an instruction, in a function of `length` instructions of a program of
`functions` functions. -/
def Instruction.defect? (functions length : Nat) : Instruction → Option Defect
  | .jump target | .branch _ _ target | .branchConstant _ target => outside? length .jump target
  | .pushLoop start stop =>
    (outside? length .loopStart start).or (outside? length .loopEnd stop)
  | .pushTry catches cleanup =>
    (catches.findSome? fun c => outside? length .handler c.handler).or
      (cleanup.bind (Span.defect? length))
  | .assign _ (.function id) => if id < functions then none else some (.noFunction id)
  | _ => none

/-- The first defect of a function. -/
def FunctionDef.invalid? (f : FunctionDef) (functions id : Nat) : Option Invalid :=
  f.code.toList.zipIdx.findSome? fun p =>
    (p.1.defect? functions f.code.size).map (.defect f.name id p.2)

/-- Why a program is refused, if it is. -/
def Program.invalid? (p : Program) : Option Invalid :=
  if p.functions.isEmpty then some .noEntry
  else p.functions.toList.zipIdx.findSome? fun f => f.1.invalid? p.functions.size f.2

/-- Whether a program may run. -/
def Program.Valid (p : Program) : Prop := p.invalid? = none

instance (p : Program) : Decidable p.Valid :=
  match h : p.invalid? with
  | none => isTrue h
  | some _ => isFalse (by simp [Program.Valid, h])

end SlotVM
