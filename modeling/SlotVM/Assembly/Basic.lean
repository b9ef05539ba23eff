/-
Assembling: program text to program. The blocks of the whole text are read first, so that functions
and labels may be used before they are defined.
-/
import SlotVM.Assembly.Block
import SlotVM.Assembly.Statement
import SlotVM.Program.Basic

namespace SlotVM.Assembly

/-- The numbers of the functions, by name. -/
def functionNames (bs : List Block) : List (String × Nat) :=
  bs.zipIdx.map fun b => (b.1.name, b.2)

/-- The function that a block defines. -/
def Block.assemble (functions : List (String × Nat)) (b : Block) :
    Except AssemblyError FunctionDef := do
  let code ← b.lines.mapM fun line =>
    atLine line.number (statement ⟨functions, b.labels⟩ line.tokens)
  return ⟨b.name, b.params, code⟩

/-- The program that a text stands for. -/
def assemble (source : String) : Except AssemblyError Program := do
  let bs ← blocks source
  let functions ← bs.mapM (Block.assemble (functionNames bs))
  return ⟨functions.toArray⟩

end SlotVM.Assembly
