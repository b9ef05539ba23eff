/-
Programs: tables of functions, each an array of instructions. Function 0 is where a run begins.
-/
import SlotVM.Program.Instruction

namespace SlotVM

/-- A function: its name, the number of its parameters, and its instructions. -/
structure FunctionDef where
  name : String
  params : Nat
  code : Array Instruction
deriving Inhabited

/-- A table of functions. -/
structure Program where
  functions : Array FunctionDef
deriving Inhabited

namespace Program

/-- The function every run starts in. -/
def entryId : Nat := 0

/-- The function that every run starts in, if the program has any. -/
def entry? (p : Program) : Option FunctionDef := p.functions[entryId]?

/-- The slots that instructions mention, in the order of the program. -/
def refs (p : Program) : List Nat :=
  p.functions.toList.flatMap fun f => f.code.toList.flatMap Instruction.refs

/-- The number of slots a run needs for its instructions: one more than the highest slot that any
of them mentions. -/
def slotCount (p : Program) : Nat :=
  match p.refs.max? with
  | some highest => highest + 1
  | none => 0

end Program

end SlotVM
