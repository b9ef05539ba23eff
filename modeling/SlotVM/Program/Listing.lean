/-
Program listings: every instruction with its number, its constructor and its named operands.
-/
import SlotVM.Program.Basic
import SlotVM.Value.Display

namespace SlotVM

open Decimal Text

/-- A constructor with named parts. -/
def listedRecord (name : String) (parts : List (String × String)) : String :=
  name ++ " \x7b " ++ commaSeparated (parts.map fun p => p.1 ++ ": " ++ p.2) ++ " \x7d"

/-- The name of a kind in listings. -/
def Kind.listing : Kind → String
  | .integer => "Integer"
  | .float => "Float"
  | .char => "Char"
  | .bool => "Bool"
  | .string => "String"
  | .array => "Array"
  | .tuple => "Tuple"
  | .record => "Struct"
  | .function => "Function"

/-- A catch type in listings. -/
def CatchType.listing : CatchType → String
  | .any => "Any"
  | .kind k => s!"Kind({k.listing})"

/-- A catch clause in listings. -/
def CatchClause.listing (c : CatchClause) : String :=
  listedRecord "CatchClause" [("ty", c.type.listing), ("handler", toString c.handler)]

/-- An operator in listings. -/
def OperatorKey.listing (k : OperatorKey) : String :=
  listedRecord "OperatorKey" [("symbol", k.symbol.listing), ("fixity", k.fixity.listing)]

/-- An optional part in listings. -/
def optionListing : Option String → String
  | some text => s!"Some({text})"
  | none => "None"

/-- The constructor and the operands of an assignment, without its target. -/
def Source.listing : Source → String × List (String × String)
  | .integer n => ("SetInteger", [("value", toString n.toInt)])
  | .float x => ("SetFloat", [("value", floatText x)])
  | .char c => ("SetChar", [("value", quoteChar c)])
  | .bool b => ("SetBool", [("value", toString b)])
  | .string s => ("SetString", [("value", quoteString s)])
  | .array elements => ("SetArray", [("elements", listText elements)])
  | .tuple elements => ("SetTuple", [("elements", listText elements)])
  | .record fields =>
    ("SetStruct",
      [("fields", bracketed "[" (fields.map fun p => s!"({quoteString p.1}, {p.2})") "]")])
  | .function id => ("SetFunction", [("function", toString id)])
  | .copy ref => ("Copy", [("source", toString ref)])
  | .param position => ("LoadParam", [("index", toString position)])
  | .field ref name => ("GetField", [("source", toString ref), ("field", quoteString name)])
  | .element ref position =>
    ("GetElement", [("source", toString ref), ("index", toString position)])
  | .index ref position => ("GetIndex", [("source", toString ref), ("index", toString position)])
  | .apply ref args => ("PartialApply", [("function", toString ref), ("args", listText args)])
  | .binary left op right =>
    ("BinaryOp", [("left", toString left), ("op", op.listing), ("right", toString right)])
  | .unary op operand => ("UnaryOp", [("op", op.listing), ("operand", toString operand)])
  | .constant id => ("LoadConstant", [("constant", toString id)])
  | .error => ("ReadError", [])
  | .named name => ("Resolve", [("name", quoteString name)])

/-- An instruction in listings. -/
def Instruction.listing : Instruction → String
  | .assign target source =>
    let (name, operands) := source.listing
    listedRecord name (("target", toString target) :: operands)
  | .setField ref name value =>
    listedRecord "SetField"
      [("source", toString ref), ("field", quoteString name), ("value", toString value)]
  | .setIndex ref index value =>
    listedRecord "SetIndex"
      [("source", toString ref), ("index", toString index), ("value", toString value)]
  | .setConstant id value =>
    listedRecord "SetConstant" [("constant", toString id), ("value", toString value)]
  | .call target ref args =>
    listedRecord "Call"
      [("target", toString target), ("function", toString ref), ("args", listText args)]
  | .bind name ref =>
    listedRecord "Bind" [("name", quoteString name), ("reference", toString ref)]
  | .pushScope => "PushScope"
  | .pushLoop start stop =>
    listedRecord "PushLoop" [("start", toString start), ("end", toString stop)]
  | .pushTry catches cleanup =>
    listedRecord "PushTry"
      [("catches", bracketed "[" (catches.map CatchClause.listing) "]"),
        ("finally", optionListing (cleanup.map Span.text))]
  | .popFrame => "PopFrame"
  | .jump target => listedRecord "Jump" [("target", toString target)]
  | .branch on condition target =>
    listedRecord (if on then "BranchTrue" else "BranchFalse")
      [("condition", toString condition), ("target", toString target)]
  | .branchConstant id target =>
    listedRecord "ConstBranch" [("constant", toString id), ("target", toString target)]
  | .nop => "Nop"
  | .ret value => listedRecord "Return" [("value", toString value)]
  | .throw value => listedRecord "Throw" [("value", toString value)]
  | .exitLoop exit depth => listedRecord exit.name [("depth", toString depth)]

/-- A number right-aligned in a column of the given width. -/
def rightAligned (width : Nat) (n : Nat) : String :=
  let digits := toString n
  "".pushn ' ' (width - digits.length) ++ digits

/-- The lines of a function: a head with its number, its instructions, and an end. -/
def FunctionDef.listing (f : FunctionDef) (id : Nat) : String :=
  let instructions := f.code.toList.zipIdx.map fun p =>
    s!"  {rightAligned 4 p.2}: {p.1.listing}\n"
  s!"fn {f.name} {f.params}  # @{id}\n" ++ String.join instructions ++ "end\n"

/-- The listing of a program. -/
def Program.listing (p : Program) : String :=
  String.join (p.functions.toList.zipIdx.map fun f => f.1.listing f.2)

end SlotVM
