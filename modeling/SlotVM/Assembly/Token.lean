/-
The tokens of a line of program text. White space and commas separate tokens, and `#` begins a
comment. A token is a bare word or a literal between quotes, in which a backslash escapes the
character after it. Quotes inside a bare word are part of it.
-/
import SlotVM.Assembly.Error

namespace SlotVM.Assembly

open Text

/-- A token: the text of a bare word, or the content of a literal with its quotes. -/
structure Token where
  text : String
  quote : Option Quote
deriving DecidableEq, Repr, Inhabited

/-- The text of a bare word. -/
def Token.bare (t : Token) : Except SyntaxError String :=
  match t.quote with
  | none => .ok t.text
  | some _ => .error (.unexpectedLiteral t.text)

/-- The character that begins a comment. -/
def commentMark : Char := '#'

/-- Whether `c` separates tokens. -/
def isSeparator (c : Char) : Bool := c == ',' || isBlank c

/-- The quotes that `c` opens a literal with. -/
def quoteOf? (c : Char) : Option Quote :=
  if c = '"' then some .double else if c = '\'' then some .single else none

/-- The character that an escape stands for. -/
def unescape? (c : Char) : Option Char :=
  match c with
  | 'n' => some '\n'
  | 't' => some '\t'
  | '0' => some '\x00'
  | '\\' | '"' | '\'' => some c
  | _ => none

/-- Where in a line the scanner is. Characters read so far are kept in reverse. -/
inductive Mode
  | between
  | word (read : List Char)
  | literal (quote : Quote) (read : List Char)
  | escape (quote : Quote) (read : List Char)

/-- The tokens in the rest of a line. -/
def scan : Mode → List Char → Except SyntaxError (List Token)
  | .between, [] => .ok []
  | .between, c :: cs =>
    if c = commentMark then .ok []
    else if isSeparator c then scan .between cs
    else match quoteOf? c with
      | some q => scan (.literal q []) cs
      | none => scan (.word [c]) cs
  | .word read, [] => .ok [⟨String.ofList read.reverse, none⟩]
  | .word read, c :: cs =>
    if c = commentMark then .ok [⟨String.ofList read.reverse, none⟩]
    else if isSeparator c then (scan .between cs).map (⟨String.ofList read.reverse, none⟩ :: ·)
    else scan (.word (c :: read)) cs
  | .literal q _, [] => .error (.unterminated q)
  | .literal q read, c :: cs =>
    if c = q.char then (scan .between cs).map (⟨String.ofList read.reverse, some q⟩ :: ·)
    else if c = '\\' then scan (.escape q read) cs
    else scan (.literal q (c :: read)) cs
  | .escape _ _, [] => .error .escapeAtEnd
  | .escape q read, c :: cs =>
    match unescape? c with
    | some d => scan (.literal q (d :: read)) cs
    | none => .error (.unknownEscape c)

/-- The tokens of a line. -/
def tokenize (line : List Char) : Except SyntaxError (List Token) := scan .between line

end SlotVM.Assembly
