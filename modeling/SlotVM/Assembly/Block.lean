/-
The functions of a program text: blocks of lines from `fn` to `end`, with their labels. A label
names the number of instructions before it in its block.
-/
import SlotVM.Assembly.Token
import SlotVM.Decimal.Integer
import SlotVM.Text.Lines

namespace SlotVM.Assembly

open Text

/-- An instruction line: its number in the text, and its tokens. -/
structure Line where
  number : Nat
  tokens : List Token
deriving DecidableEq, Repr, Inhabited

/-- The text of a function. -/
structure Block where
  name : String
  params : Nat
  lines : Array Line
  labels : List (String × Nat)
deriving Inhabited

/-- What a line is for. -/
inductive LineForm
  | blank
  /-- `fn`, with what follows it. -/
  | head (operands : List Token)
  | finish
  | label (name : String)
  | statement (tokens : List Token)
deriving DecidableEq, Repr

/-- The label that a word such as `start:` defines. -/
def labelOf? (text : String) : Option String :=
  match text.toList.reverse with
  | ':' :: c :: rest => some (String.ofList (c :: rest).reverse)
  | _ => none

/-- What the tokens of a line are for. An end and a label stand alone on their line. -/
def LineForm.ofTokens : List Token → LineForm
  | [] => .blank
  | first :: rest =>
    if first.quote ≠ none then .statement (first :: rest)
    else if first.text = "fn" then .head rest
    else if rest ≠ [] then .statement (first :: rest)
    else if first.text = "end" then .finish
    else match labelOf? first.text with
      | some name => .label name
      | none => .statement [first]

/-- The blocks read so far, the latest first, and the one that is still open. -/
structure Progress where
  closed : List Block
  current : Option Block

/-- Opens the block of a function. -/
def Progress.openBlock (p : Progress) (number : Nat) (operands : List Token) :
    Except AssemblyError Progress := do
  if let some block := p.current then throw ⟨some number, .openFunction block.name⟩
  match operands with
  | [name, params] =>
    let count ← atNoLine params.bare
    let count ← atLine number (match Decimal.unsigned? count with
      | some n => .ok n
      | none => .error (.paramCount count))
    let name ← atNoLine name.bare
    if p.closed.any (·.name == name) then throw ⟨some number, .functionTwice name⟩
    return { p with current := some ⟨name, count, #[], []⟩ }
  | _ => throw ⟨some number, .functionHead⟩

/-- Takes in one line. -/
def Progress.addLine (p : Progress) (number : Nat) (text : List Char) :
    Except AssemblyError Progress := do
  let tokens ← atLine number (tokenize text)
  match LineForm.ofTokens tokens, p.current with
  | .blank, _ => return p
  | .head operands, _ => p.openBlock number operands
  | _, none => throw ⟨some number, .outsideFunction⟩
  | .finish, some block => return ⟨block :: p.closed, none⟩
  | .label name, some block =>
    if (block.labels.lookup name).isSome then throw ⟨some number, .labelTwice name⟩
    return { p with current := some { block with labels := (name, block.lines.size) :: block.labels } }
  | .statement tokens, some block =>
    return { p with current := some { block with lines := block.lines.push ⟨number, tokens⟩ } }

/-- The blocks once the text has ended. -/
def Progress.finish (p : Progress) : Except AssemblyError (List Block) :=
  match p.current, p.closed with
  | some block, _ => .error ⟨none, .openFunction block.name⟩
  | none, [] => .error ⟨none, .noFunctions⟩
  | none, closed => .ok closed.reverse

/-- Takes in numbered lines one after the other. -/
def Progress.addLines (p : Progress) : List (List Char × Nat) → Except AssemblyError Progress
  | [] => .ok p
  | (text, number) :: rest => do (← p.addLine number text).addLines rest

/-- The blocks of a text. -/
def blocks (source : String) : Except AssemblyError (List Block) := do
  (← Progress.addLines ⟨[], none⟩ ((lines source.toList).zipIdx 1)).finish

end SlotVM.Assembly
