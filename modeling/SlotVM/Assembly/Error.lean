/-
What is wrong with program text, and on which line.
-/
import SlotVM.CatchType
import SlotVM.Operator.Key
import SlotVM.Text.Quoted

namespace SlotVM.Assembly

open Text

/-- What is wrong with a piece of program text. -/
inductive SyntaxError
  -- tokens
  | unterminated (quote : Quote)
  | unknownEscape (c : Char)
  | escapeAtEnd
  -- lines
  | openFunction (name : String)
  | functionHead
  | paramCount (text : String)
  | functionTwice (name : String)
  | outsideFunction
  | labelTwice (name : String)
  | noFunctions
  -- instructions
  | unexpectedLiteral (text : String)
  | missingMnemonic
  | unknownMnemonic (mnemonic : String)
  | wrongOperands (mnemonic : String)
  | notReference (text : String)
  | notConstant (text : String)
  | notNatural (text : String)
  | notInteger (text : String)
  | notFloat (text : String)
  | notBool (text : String)
  | notOneChar
  | notField (text : String)
  | notFunction (text : String)
  | undefinedFunction (name : String)
  | undefinedLabel (name : String)
  | unknownCatchType (name : String)
  | unknownSymbol (text : String)
  | malformedClause (text : String)
deriving DecidableEq, Repr, Inhabited

/-- The word for the literals between quotes of one sort. -/
def literalName : Quote → String
  | .single => "char"
  | .double => "string"

/-- The message for an error, without its line. -/
def SyntaxError.message : SyntaxError → String
  | .unterminated quote => s!"unterminated {literalName quote} literal"
  | .unknownEscape c => s!"unknown escape `\\{c}`"
  | .escapeAtEnd => "escape at end of line"
  | .openFunction name => s!"function `{name}` is missing `end`"
  | .functionHead => "expected `fn <name> <param-count>`"
  | .paramCount text => s!"invalid parameter count `{text}`"
  | .functionTwice name => s!"function `{name}` defined twice"
  | .outsideFunction => "instruction outside of a function"
  | .labelTwice name => s!"label `{name}` defined twice"
  | .noFunctions => "program defines no functions"
  | .unexpectedLiteral text => s!"Unexpected literal `{text}`"
  | .missingMnemonic => "Missing mnemonic"
  | .unknownMnemonic mnemonic => s!"Unknown mnemonic `{mnemonic}`"
  | .wrongOperands mnemonic => s!"Wrong operands for `{mnemonic}`"
  | .notReference text => s!"Expected a reference like `r0`, found `{text}`"
  | .notConstant text => s!"Expected a constant like `c0`, found `{text}`"
  | .notNatural text => s!"Expected a non-negative integer, found `{text}`"
  | .notInteger text => s!"Invalid integer `{text}`"
  | .notFloat text => s!"Invalid float `{text}`"
  | .notBool text => s!"Invalid bool `{text}`"
  | .notOneChar => "Char literal must hold exactly one character"
  | .notField text => s!"Expected `name=rN`, found `{text}`"
  | .notFunction text => s!"Expected a function like `@name`, found `{text}`"
  | .undefinedFunction name => s!"Undefined function `{name}`"
  | .undefinedLabel name => s!"Undefined label `{name}`"
  | .unknownCatchType name => CatchType.unknownMessage name
  | .unknownSymbol text => Symbol.unknownMessage text
  | .malformedClause text => s!"Malformed try clause starting at `{text}`"

/-- An error in program text. Lines are counted from 1; an error that belongs to the text as a whole,
or to a literal where a function's head needs a word, has none. -/
structure AssemblyError where
  line : Option Nat
  error : SyntaxError
deriving DecidableEq, Repr, Inhabited

/-- The message for an error. -/
def AssemblyError.message (e : AssemblyError) : String :=
  match e.line with
  | some n => s!"line {n}: {e.error.message}"
  | none => e.error.message

/-- Puts the number of its line to an error. -/
def atLine {α : Type} (n : Nat) : Except SyntaxError α → Except AssemblyError α
  | .ok a => .ok a
  | .error e => .error ⟨some n, e⟩

/-- An error without a line. -/
def atNoLine {α : Type} : Except SyntaxError α → Except AssemblyError α
  | .ok a => .ok a
  | .error e => .error ⟨none, e⟩

end SlotVM.Assembly
