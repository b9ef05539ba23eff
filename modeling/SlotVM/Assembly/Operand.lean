/-
The operands of instructions: slots, constants, numbers, jump targets, functions, operators, and the
clauses of a try construct.
-/
import SlotVM.Assembly.Token
import SlotVM.Decimal.FloatText
import SlotVM.Program.Instruction

namespace SlotVM.Assembly

open Decimal Text

/-- The names that the instructions of a function may use. -/
structure Names where
  functions : List (String × Nat)
  labels : List (String × Nat)

/-- The value, or the error if there is none. -/
def orError {α : Type} (e : SyntaxError) : Option α → Except SyntaxError α
  | some a => .ok a
  | none => .error e

/-- A number after a one-letter mark. -/
def marked? (mark : Char) (text : String) : Option Nat :=
  match text.toList with
  | c :: rest => if c = mark then unsigned? (String.ofList rest) else none
  | [] => none

/-- The slot that a text such as `r0` names. -/
def refOf (text : String) : Except SyntaxError Nat :=
  orError (.notReference text) (marked? 'r' text)

/-- A slot, such as `r0`. -/
def ref (t : Token) : Except SyntaxError Nat := do
  refOf (← t.bare)

/-- Slots. -/
def refs (ts : List Token) : Except SyntaxError (List Nat) := ts.mapM ref

/-- A constant, such as `c0`. -/
def const (t : Token) : Except SyntaxError Nat := do
  let text ← t.bare
  orError (.notConstant text) (marked? 'c' text)

/-- A natural number. -/
def natural (t : Token) : Except SyntaxError Nat := do
  let text ← t.bare
  orError (.notNatural text) (unsigned? text)

/-- An integer. -/
def integer (t : Token) : Except SyntaxError Int64 := do
  let text ← t.bare
  orError (.notInteger text) (signed? text)

/-- A floating-point number. -/
def float (t : Token) : Except SyntaxError Float := do
  let text ← t.bare
  orError (.notFloat text) (float? text)

/-- A truth value. -/
def bool (t : Token) : Except SyntaxError Bool := do
  match ← t.bare with
  | "true" => return true
  | "false" => return false
  | text => throw (.notBool text)

/-- The character of a character literal. -/
def char (t : Token) : Except SyntaxError Char :=
  match t.text.toList with
  | [c] => .ok c
  | _ => .error .notOneChar

/-- An operator's symbol, standing at the given place. -/
def operator (fixity : Fixity) (t : Token) : Except SyntaxError OperatorKey := do
  let text ← t.bare
  return ⟨← orError (.unknownSymbol text) (Symbol.ofText? text), fixity⟩

/-- A catch type. -/
def catchType (t : Token) : Except SyntaxError CatchType := do
  let text ← t.bare
  orError (.unknownCatchType text) (CatchType.ofName? text)

/-- The name and the slot of a record field, such as `x=r0`. -/
def field (t : Token) : Except SyntaxError (String × Nat) := do
  let text ← t.bare
  let name := text.toList.takeWhile (· ≠ '=')
  match text.toList.dropWhile (· ≠ '=') with
  | _ :: value => return (String.ofList name, ← refOf (String.ofList value))
  | [] => throw (.notField text)

/-- A jump target: the number of an instruction, or a label. -/
def Names.target (names : Names) (t : Token) : Except SyntaxError Nat := do
  let text ← t.bare
  orError (.undefinedLabel text) ((unsigned? text).or (names.labels.lookup text))

/-- A function: `@` with its number or its name. -/
def Names.function (names : Names) (t : Token) : Except SyntaxError Nat := do
  let text ← t.bare
  match text.toList with
  | '@' :: rest =>
    let name := String.ofList rest
    orError (.undefinedFunction name) ((unsigned? name).or (names.functions.lookup name))
  | _ => throw (.notFunction text)

/-- The clauses of a try construct: any number of `catch <type> <target>`, and at most one
`finally <start> <end>` among them. -/
def Names.clauses (names : Names) (catches : List CatchClause) (cleanup : Option Span) :
    List Token → Except SyntaxError Instruction
  | [] => .ok (.pushTry catches cleanup)
  | [t] => do
    let word ← t.bare
    throw (.malformedClause word)
  | [t, _] => do
    let word ← t.bare
    throw (.malformedClause word)
  | t :: a :: b :: rest => do
    let word ← t.bare
    if word = "catch" then
      let type ← catchType a
      let handler ← names.target b
      names.clauses (catches ++ [⟨type, handler⟩]) cleanup rest
    else if word = "finally" ∧ cleanup.isNone then
      let start ← names.target a
      let stop ← names.target b
      names.clauses catches (some ⟨start, stop⟩) rest
    else throw (.malformedClause word)

end SlotVM.Assembly
