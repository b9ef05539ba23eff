/-
The names of operators: a symbol together with the place where it stands.
-/

namespace SlotVM

/-- Where an operator stands relative to its operands. -/
inductive Fixity
  | before
  | after
  | between
deriving DecidableEq, Repr, Inhabited

namespace Fixity

/-- The word for a fixity. -/
def name : Fixity → String
  | .before => "prefix"
  | .after => "postfix"
  | .between => "infix"

/-- The word for a fixity in listings. -/
def listing : Fixity → String
  | .before => "Prefix"
  | .after => "Postfix"
  | .between => "Infix"

/-- The number of operands. -/
def arity : Fixity → Nat
  | .between => 2
  | _ => 1

/-- The fixity with a given name. -/
def ofName? : String → Option Fixity
  | "prefix" => some .before
  | "postfix" => some .after
  | "infix" => some .between
  | _ => none

end Fixity

/-- The symbols that operators are written with. -/
inductive Symbol
  | plus
  | minus
  | star
  | slash
  | percent
  | power
  | eq
  | ne
  | lt
  | le
  | gt
  | ge
  | and
  | or
  | not
  | tilde
  | amp
  | pipe
  | caret
  | shiftLeft
  | shiftRight
  | increment
  | decrement
deriving DecidableEq, Repr, Inhabited

namespace Symbol

/-- All symbols. -/
def all : List Symbol :=
  [.plus, .minus, .star, .slash, .percent, .power, .eq, .ne, .lt, .le, .gt, .ge, .and, .or, .not,
    .tilde, .amp, .pipe, .caret, .shiftLeft, .shiftRight, .increment, .decrement]

/-- How a symbol is written. -/
def text : Symbol → String
  | .plus => "+"
  | .minus => "-"
  | .star => "*"
  | .slash => "/"
  | .percent => "%"
  | .power => "**"
  | .eq => "=="
  | .ne => "!="
  | .lt => "<"
  | .le => "<="
  | .gt => ">"
  | .ge => ">="
  | .and => "&&"
  | .or => "||"
  | .not => "!"
  | .tilde => "~"
  | .amp => "&"
  | .pipe => "|"
  | .caret => "^"
  | .shiftLeft => "<<"
  | .shiftRight => ">>"
  | .increment => "++"
  | .decrement => "--"

/-- The word for a symbol in listings. -/
def listing : Symbol → String
  | .plus => "Plus"
  | .minus => "Minus"
  | .star => "Star"
  | .slash => "Slash"
  | .percent => "Percent"
  | .power => "Power"
  | .eq => "Eq"
  | .ne => "Ne"
  | .lt => "Lt"
  | .le => "Le"
  | .gt => "Gt"
  | .ge => "Ge"
  | .and => "And"
  | .or => "Or"
  | .not => "Not"
  | .tilde => "Tilde"
  | .amp => "Amp"
  | .pipe => "Pipe"
  | .caret => "Caret"
  | .shiftLeft => "Shl"
  | .shiftRight => "Shr"
  | .increment => "Increment"
  | .decrement => "Decrement"

/-- The symbol that is written as `text`. -/
def ofText? (text : String) : Option Symbol := all.find? (·.text == text)

/-- The message for a text that is no symbol. -/
def unknownMessage (text : String) : String := s!"Unknown operator symbol `{text}`"

end Symbol

/-- The name of an operator. -/
structure OperatorKey where
  symbol : Symbol
  fixity : Fixity
deriving DecidableEq, Repr, Inhabited

/-- The text of an operator's name, such as `infix +`. -/
def OperatorKey.text (k : OperatorKey) : String := s!"{k.fixity.name} {k.symbol.text}"

end SlotVM
