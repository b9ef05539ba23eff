/-
What each operator does, and the registry in which instructions look them up. Operators take slots
as operands; the increments and decrements also store into theirs.
-/
import SlotVM.Operator.Integer
import SlotVM.Operator.Remainder

namespace SlotVM

/-! ## Operations on values -/

/-- A raised failure or a result, as the outcome of an operator. -/
def ofRaised {α : Type} : Except Raised α → Except Failure α
  | .ok a => .ok a
  | .error r => .error (.raised r)

/-- A fault or a result, as the outcome of an operator. -/
def ofCause {α : Type} : Except Cause α → Except Failure α
  | .ok a => .ok a
  | .error c => .error (.fault c)

/-- The fault of a binary operator that does not take these operands. -/
def mismatch {α : Type} (symbol : Symbol) (l r : Value) : Except Failure α :=
  .error (.fault (.binaryKinds symbol l.kind r.kind))

/-- The fault of a unary operator that does not take this operand. -/
def unsupported {α : Type} (symbol : Symbol) (v : Value) : Except Failure α :=
  .error (.fault (.unaryKind symbol v.kind))

/-- Arithmetic on floating-point numbers. -/
def Arithmetic.float (op : Arithmetic) (l r : Float) : Float :=
  match op with
  | .add => l + r
  | .sub => l - r
  | .mul => l * r
  | .div => l / r
  | .rem => floatRemainder l r
  | .pow => l.pow r

/-- Arithmetic on two numbers of one kind. -/
def Arithmetic.apply (op : Arithmetic) (l r : Value) : Except Failure Value :=
  match l, r with
  | .integer l, .integer r => ofRaised ((op.integer l r).map .integer)
  | .float l, .float r => .ok (.float (op.float l r))
  | l, r => mismatch op.symbol l r

/-- Addition, which also appends a string or a character to a string. -/
def plus (l r : Value) : Except Failure Value :=
  match l, r with
  | .string l, .string r => .ok (.string (l ++ r))
  | .string l, .char c => .ok (.string (l.push c))
  | l, r => Arithmetic.add.apply l r

/-- The order of two strings: that of their UTF-8 texts, byte by byte. -/
def compareText (a b : String) : Ordering := compare a.toUTF8.data b.toUTF8.data

/-- The four order relations. -/
inductive Relation
  | less
  | lessOrEqual
  | greater
  | greaterOrEqual
deriving DecidableEq, Repr

namespace Relation

/-- The symbol of a relation. -/
def symbol : Relation → Symbol
  | .less => .lt
  | .lessOrEqual => .le
  | .greater => .gt
  | .greaterOrEqual => .ge

/-- Whether the relation holds of values that compare as `o`. -/
def holds (r : Relation) (o : Ordering) : Bool :=
  match r with
  | .less => o.isLT
  | .lessOrEqual => o.isLE
  | .greater => o.isGT
  | .greaterOrEqual => o.isGE

/-- Whether the relation holds of two floating-point numbers; it never does if one of them is not
a number. -/
def float (r : Relation) (a b : Float) : Bool :=
  match r with
  | .less => a < b
  | .lessOrEqual => a ≤ b
  | .greater => b < a
  | .greaterOrEqual => b ≤ a

/-- The relation on two values of one ordered kind. -/
def apply (r : Relation) (left right : Value) : Except Failure Value :=
  match left, right with
  | .integer a, .integer b => .ok (.bool (r.holds (compare a b)))
  | .float a, .float b => .ok (.bool (r.float a b))
  | .char a, .char b => .ok (.bool (r.holds (compare a b)))
  | .string a, .string b => .ok (.bool (r.holds (compareText a b)))
  | left, right => mismatch r.symbol left right

end Relation

/-- The operations on pairs of booleans and on the bits of pairs of integers. -/
inductive Logic
  | and
  | or
  | bitAnd
  | bitOr
  | exclusiveOr
deriving DecidableEq, Repr

namespace Logic

/-- The symbol of a logical operation. -/
def symbol : Logic → Symbol
  | .and => .and
  | .or => .or
  | .bitAnd => .amp
  | .bitOr => .pipe
  | .exclusiveOr => .caret

/-- A logical operation on two values. Both operands are always evaluated. -/
def apply (op : Logic) (l r : Value) : Except Failure Value :=
  match op, l, r with
  | .and, .bool a, .bool b => .ok (.bool (a && b))
  | .or, .bool a, .bool b => .ok (.bool (a || b))
  | .bitAnd, .integer a, .integer b => .ok (.integer (a &&& b))
  | .bitOr, .integer a, .integer b => .ok (.integer (a ||| b))
  | .exclusiveOr, .integer a, .integer b => .ok (.integer (a ^^^ b))
  | .exclusiveOr, .bool a, .bool b => .ok (.bool (a ^^ b))
  | op, l, r => mismatch op.symbol l r

end Logic

/-- A shift of one integer by another. -/
def Shift.apply (s : Shift) (l r : Value) : Except Failure Value :=
  match l, r with
  | .integer l, .integer r => ofRaised ((s.integer l r).map .integer)
  | l, r => mismatch s.symbol l r

/-- The number with the opposite sign. -/
def negate : Value → Except Failure Value
  | .integer n => ofRaised ((fitted .minus (-n.toInt)).map .integer)
  | .float x => .ok (.float (-x))
  | v => unsupported .minus v

/-- A number itself. -/
def affirm : Value → Except Failure Value
  | .integer n => .ok (.integer n)
  | .float x => .ok (.float x)
  | v => unsupported .plus v

/-- The opposite truth value. -/
def negateBool : Value → Except Failure Value
  | .bool b => .ok (.bool !b)
  | v => unsupported .not v

/-- The integer with every bit flipped. -/
def complement : Value → Except Failure Value
  | .integer n => .ok (.integer (~~~n))
  | v => unsupported .tilde v

/-! ## Operators -/

/-- What an operator does with its operands. -/
inductive Operation
  | binary (f : Value → Value → Except Failure Value)
  | unary (f : Value → Except Failure Value)
  /-- Adds `delta` to the integer in the operand's slot. The result is the integer before the
  addition if `old` is set, and else the sum. -/
  | step (symbol : Symbol) (delta : Int) (old : Bool)

/-- The operation of an operator, if the engine has one of that name. -/
def OperatorKey.operation? (key : OperatorKey) : Option Operation :=
  match key.fixity, key.symbol with
  | .between, .plus => some (.binary plus)
  | .between, .minus => some (.binary Arithmetic.sub.apply)
  | .between, .star => some (.binary Arithmetic.mul.apply)
  | .between, .slash => some (.binary Arithmetic.div.apply)
  | .between, .percent => some (.binary Arithmetic.rem.apply)
  | .between, .power => some (.binary Arithmetic.pow.apply)
  | .between, .eq => some (.binary fun l r => .ok (.bool (l == r)))
  | .between, .ne => some (.binary fun l r => .ok (.bool (l != r)))
  | .between, .lt => some (.binary Relation.less.apply)
  | .between, .le => some (.binary Relation.lessOrEqual.apply)
  | .between, .gt => some (.binary Relation.greater.apply)
  | .between, .ge => some (.binary Relation.greaterOrEqual.apply)
  | .between, .and => some (.binary Logic.and.apply)
  | .between, .or => some (.binary Logic.or.apply)
  | .between, .amp => some (.binary Logic.bitAnd.apply)
  | .between, .pipe => some (.binary Logic.bitOr.apply)
  | .between, .caret => some (.binary Logic.exclusiveOr.apply)
  | .between, .shiftLeft => some (.binary Shift.left.apply)
  | .between, .shiftRight => some (.binary Shift.right.apply)
  | .before, .minus => some (.unary negate)
  | .before, .plus => some (.unary affirm)
  | .before, .not => some (.unary negateBool)
  | .before, .tilde => some (.unary complement)
  | .before, .increment => some (.step .increment 1 false)
  | .before, .decrement => some (.step .decrement (-1) false)
  | .after, .increment => some (.step .increment 1 true)
  | .after, .decrement => some (.step .decrement (-1) true)
  | _, _ => none

/-- The result of an operator: a value, and what it stores into the slot of its operand. The engine's
operators are handed the slots to write into, but write only after the last thing that can fail: the
increments and decrements read their operand, check its kind and add, and then store the sum, and the
others store nothing. So the slots after an operator that fails are those before it, and only a result
comes with something to store. -/
structure Computed where
  value : Value
  stored : Option (Nat × Value)
deriving Inhabited

/-- A result that stores nothing. -/
def Computed.pure (v : Value) : Computed := ⟨v, none⟩

/-- The slots after an operator. -/
def Computed.store (c : Computed) (s : Slots) : Slots :=
  match c.stored with
  | some (ref, v) => s.write ref v
  | none => s

/-- Runs an operation on operand slots, which must be as many as its operator takes and must all be
written. What it stores is left to `Computed.store`. -/
def Operation.run (op : Operation) (key : OperatorKey) (s : Slots) (operands : List Nat) :
    Except Failure Computed :=
  match op, operands with
  | .binary f, [l, r] => do
    let left ← ofCause (s.read l)
    let right ← ofCause (s.read r)
    return .pure (← f left right)
  | .unary f, [ref] => do
    let v ← ofCause (s.read ref)
    return .pure (← f v)
  | .step symbol delta old, [ref] => do
    match ← ofCause (s.read ref) with
    | .integer n =>
      let sum ← ofRaised (fitted .plus (n.toInt + delta))
      return ⟨.integer (if old then n else sum), some (ref, .integer sum)⟩
    | v => unsupported symbol v
  | _, _ => .error (.fault (.operandCount key operands.length))

/-! ## Registries -/

/-- A set of operators that instructions may use. -/
structure Registry where
  keys : List OperatorKey

namespace Registry

/-- The registry of the given operators, each once; names without an operation are left out. -/
def ofKeys (keys : List OperatorKey) : Registry :=
  ⟨(keys.filter (·.operation?.isSome)).eraseDups⟩

/-- The registry of all operators. -/
def standard : Registry :=
  ofKeys ([.between, .before, .after].flatMap fun f => Symbol.all.map fun s => ⟨s, f⟩)

/-- The number of operators. -/
def size (r : Registry) : Nat := r.keys.length

/-- The operation registered for an operator. -/
def lookup? (r : Registry) (key : OperatorKey) : Option Operation :=
  if key ∈ r.keys then key.operation? else none

/-- Looks an operator up and runs it. -/
def execute (r : Registry) (key : OperatorKey) (s : Slots) (operands : List Nat) :
    Except Failure Computed :=
  match r.lookup? key with
  | some op => op.run key s operands
  | none => .error (.fault (.noOperator key))

theorem mem_standard_keys {key : OperatorKey} :
    key ∈ standard.keys ↔ key.operation?.isSome = true := by
  simp only [standard, ofKeys, List.mem_eraseDups, List.mem_filter, and_iff_right_iff_imp]
  intro _
  obtain ⟨symbol, fixity⟩ := key
  refine List.mem_flatMap.2 ⟨fixity, ?_, List.mem_map.2 ⟨symbol, ?_, rfl⟩⟩
  · cases fixity <;> decide
  · cases symbol <;> decide

/-- Every operator with an operation is in the standard registry. -/
theorem lookup?_standard (key : OperatorKey) : standard.lookup? key = key.operation? := by
  unfold lookup?
  split
  · rfl
  · rename_i h
    rw [mem_standard_keys] at h
    exact (Option.not_isSome_iff_eq_none.1 h).symm

end Registry

/-- Runs one of the engine's operators. -/
def OperatorKey.execute (key : OperatorKey) (s : Slots) (operands : List Nat) :
    Except Failure Computed :=
  match key.operation? with
  | some op => op.run key s operands
  | none => .error (.fault (.noOperator key))

/-- The standard registry runs exactly the engine's operators. -/
theorem Registry.execute_standard (key : OperatorKey) (s : Slots) (operands : List Nat) :
    Registry.standard.execute key s operands = key.execute s operands := by
  rw [Registry.execute, Registry.lookup?_standard, OperatorKey.execute]

end SlotVM
