/-
Instruction lines: a mnemonic followed by its operands.
-/
import SlotVM.Assembly.Operand

namespace SlotVM.Assembly

open Text

/-- The instruction that the operands of a mnemonic make. There is no result if their number or
their quotes do not fit. -/
abbrev Form := Names → List Token → Option (Except SyntaxError Instruction)

/-- A mnemonic that assigns to its first operand what the others stand for. -/
def assignment (source : Names → List Token → Option (Except SyntaxError Source)) : Form :=
  fun names operands =>
    match operands with
    | t :: rest => (source names rest).map fun s => do
      let target ← ref t
      return .assign target (← s)
    | [] => none

/-- An assignment of one operand. -/
def assignment₁ (source : Names → Token → Except SyntaxError Source) : Form :=
  assignment fun names operands =>
    match operands with
    | [a] => some (source names a)
    | _ => none

/-- An assignment of two operands. -/
def assignment₂ (source : Token → Token → Except SyntaxError Source) : Form :=
  assignment fun _ operands =>
    match operands with
    | [a, b] => some (source a b)
    | _ => none

/-- An instruction without operands. -/
def plain (i : Instruction) : Form := fun _ operands =>
  match operands with
  | [] => some (.ok i)
  | _ => none

/-- An instruction of one operand. -/
def form₁ (f : Names → Token → Except SyntaxError Instruction) : Form := fun names operands =>
  match operands with
  | [a] => some (f names a)
  | _ => none

/-- An instruction of two operands. -/
def form₂ (f : Names → Token → Token → Except SyntaxError Instruction) : Form :=
  fun names operands =>
    match operands with
    | [a, b] => some (f names a b)
    | _ => none

/-- An instruction of three operands. -/
def form₃ (f : Token → Token → Token → Except SyntaxError Instruction) : Form :=
  fun _ operands =>
    match operands with
    | [a, b, c] => some (f a b c)
    | _ => none

/-- A character literal; it is looked into before the target is. -/
def charForm : Form := fun _ operands =>
  match operands with
  | [t, v] => if v.quote = some .single then some do
      let c ← char v
      return .assign (← ref t) (.char c)
    else none
  | _ => none

/-- The fields of a record; they are looked into before the target is. -/
def recordForm : Form := fun _ operands =>
  match operands with
  | t :: fields => some do
    let fields ← fields.mapM field
    return .assign (← ref t) (.record fields)
  | [] => none

/-- The mnemonics and what they make of their operands. -/
def forms : List (String × Form) := [
  ("int", assignment₁ fun _ v => return .integer (← integer v)),
  ("float", assignment₁ fun _ v => return .float (← float v)),
  ("char", charForm),
  ("bool", assignment₁ fun _ v => return .bool (← bool v)),
  ("string", assignment fun _ operands =>
    match operands with
    | [v] => if v.quote = some .double then some (.ok (.string v.text)) else none
    | _ => none),
  ("array", assignment fun _ elements => some do return .array (← refs elements)),
  ("tuple", assignment fun _ elements => some do return .tuple (← refs elements)),
  ("struct", recordForm),
  ("func", assignment₁ fun names f => return .function (← names.function f)),
  ("copy", assignment₁ fun _ s => return .copy (← ref s)),
  ("param", assignment₁ fun _ i => return .param (← natural i)),
  ("field", assignment₂ fun s name => return .field (← ref s) (← name.bare)),
  ("element", assignment₂ fun s i => return .element (← ref s) (← natural i)),
  ("index", assignment₂ fun s i => return .index (← ref s) (← ref i)),
  ("set_field", form₃ fun s name v => return .setField (← ref s) (← name.bare) (← ref v)),
  ("set_index", form₃ fun s i v => return .setIndex (← ref s) (← ref i) (← ref v)),
  ("apply", assignment fun _ operands =>
    match operands with
    | f :: args => some do return .apply (← ref f) (← refs args)
    | [] => none),
  ("call", fun _ operands =>
    match operands with
    | t :: f :: args => some do return .call (← ref t) (← ref f) (← refs args)
    | _ => none),
  ("binop", assignment fun _ operands =>
    match operands with
    | [l, op, r] => some do return .binary (← ref l) (← operator .between op) (← ref r)
    | _ => none),
  ("prefix", assignment₂ fun op v => return .unary (← operator .before op) (← ref v)),
  ("postfix", assignment₂ fun op v => return .unary (← operator .after op) (← ref v)),
  ("load_const", assignment₁ fun _ c => return .constant (← const c)),
  ("set_const", form₂ fun _ c v => return .setConstant (← const c) (← ref v)),
  ("read_error", assignment fun _ operands =>
    match operands with
    | [] => some (.ok .error)
    | _ => none),
  ("bind", form₂ fun _ name r => return .bind (← name.bare) (← ref r)),
  ("resolve", assignment₁ fun _ name => return .named (← name.bare)),
  ("push_scope", plain .pushScope),
  ("push_loop", form₂ fun names a b => return .pushLoop (← names.target a) (← names.target b)),
  ("push_try", fun names clauses => some (names.clauses [] none clauses)),
  ("pop", plain .popFrame),
  ("jump", form₁ fun names l => return .jump (← names.target l)),
  ("br_true", form₂ fun names c l => return .branch true (← ref c) (← names.target l)),
  ("br_false", form₂ fun names c l => return .branch false (← ref c) (← names.target l)),
  ("const_br", form₂ fun names c l => return .branchConstant (← const c) (← names.target l)),
  ("nop", plain .nop),
  ("return", form₁ fun _ v => return .ret (← ref v)),
  ("throw", form₁ fun _ v => return .throw (← ref v)),
  ("break", form₁ fun _ d => return .exitLoop .leave (← natural d)),
  ("continue", form₁ fun _ d => return .exitLoop .again (← natural d))]

/-- The instruction that the tokens of a line stand for. -/
def statement (names : Names) : List Token → Except SyntaxError Instruction
  | [] => .error .missingMnemonic
  | head :: operands => do
    let mnemonic ← head.bare
    match forms.lookup mnemonic with
    | none => throw (.unknownMnemonic mnemonic)
    | some form =>
      match form names operands with
      | some result => result
      | none => throw (.wrongOperands mnemonic)

end SlotVM.Assembly
