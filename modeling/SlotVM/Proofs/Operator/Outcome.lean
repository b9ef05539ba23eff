/-
What operators compute: primitive values, which mention neither a slot nor a function. Neither they nor
the operands that they read are a reason to fault for want of a function.
-/
import SlotVM.Operator.Registry

namespace SlotVM

/-! ## Outcomes of computations -/

/-- What a computation yields has the property `Q`, and it does not fault for want of a function. -/
def Yields {α : Type} (Q : α → Prop) : Except Failure α → Prop
  | .ok a => Q a
  | .error (.raised _) => True
  | .error (.fault c) => ∀ id, c ≠ .noFunction id

namespace Yields

variable {α β : Type} {Q : α → Prop} {R : β → Prop}

theorem ok {a : α} (h : Q a) : Yields Q (.ok a) := h

theorem bind {r : Except Failure α} {k : α → Except Failure β} (h : Yields Q r) (hk : ∀ a, Q a → Yields R (k a)) :
    Yields R (r >>= k) := by
  cases r with
  | ok a => exact hk a h
  | error e => cases e <;> exact h

theorem bindCause {r : Except Cause α} {k : α → Except Cause β} (h : Yields Q (ofCause r))
    (hk : ∀ a, Q a → Yields R (ofCause (k a))) : Yields R (ofCause (r >>= k)) := by
  cases r with
  | ok a => exact hk a h
  | error c => exact h

theorem mono {Q' : α → Prop} {r : Except Failure α} (h : Yields Q r) (hQ : ∀ a, Q a → Q' a) : Yields Q' r := by
  cases r with
  | ok a => exact hQ a h
  | error e => cases e <;> exact h

theorem of_ok {r : Except Failure α} {a : α} (h : Yields Q r) (hr : r = .ok a) : Q a := by
  subst hr; exact h

theorem of_fault {r : Except Failure α} {c : Cause} (h : Yields Q r) (hr : r = .error (.fault c)) (id : Nat) :
    c ≠ .noFunction id := by
  subst hr; exact h id

theorem raised {r : Except Raised α} (h : ∀ a, Q a) : Yields Q (ofRaised r) := by
  cases r with
  | ok a => exact h a
  | error e => trivial

theorem read {s : Slots} {ref : Nat} {P : Value → Prop} (h : ∀ v, s.get? ref = some v → P v) :
    Yields P (ofCause (s.read ref)) := by
  unfold Slots.read
  split
  · rename_i v hv; exact h v hv
  · exact nofun

end Yields

/-- Reading a slot is no reason to fault for want of a function. -/
theorem read_yields (s : Slots) (ref : Nat) : Yields (fun _ => True) (ofCause (s.read ref)) :=
  .read fun _ _ => trivial

/-! ## Operators -/

/-- A value that mentions neither a slot nor a function. -/
def Value.IsPrimitive : Value → Prop
  | .integer _ | .float _ | .char _ | .bool _ | .string _ => True
  | .array _ | .tuple _ | .record _ | .function _ => False

theorem mismatch_yields {Q : Value → Prop} (symbol : Symbol) (l r : Value) :
    Yields Q (mismatch symbol l r) := nofun

theorem unsupported_yields {α : Type} {Q : α → Prop} (symbol : Symbol) (v : Value) :
    Yields Q (unsupported symbol v) := nofun

theorem raised_integer {r : Except Raised Int64} :
    Yields Value.IsPrimitive (ofRaised (r.map .integer)) := by
  cases r <;> trivial

theorem Arithmetic.apply_yields (op : Arithmetic) (l r : Value) : Yields Value.IsPrimitive (op.apply l r) := by
  unfold Arithmetic.apply
  split
  · exact raised_integer
  · trivial
  · exact mismatch_yields _ _ _

theorem plus_yields (l r : Value) : Yields Value.IsPrimitive (plus l r) := by
  unfold plus
  split
  · trivial
  · trivial
  · exact Arithmetic.apply_yields _ _ _

theorem Relation.apply_yields (op : Relation) (l r : Value) : Yields Value.IsPrimitive (op.apply l r) := by
  unfold Relation.apply
  split <;> first | trivial | exact mismatch_yields _ _ _

theorem Logic.apply_yields (op : Logic) (l r : Value) : Yields Value.IsPrimitive (op.apply l r) := by
  unfold Logic.apply
  split <;> first | trivial | exact mismatch_yields _ _ _

theorem Shift.apply_yields (op : Shift) (l r : Value) : Yields Value.IsPrimitive (op.apply l r) := by
  unfold Shift.apply
  split
  · exact raised_integer
  · exact mismatch_yields _ _ _

theorem negate_yields (v : Value) : Yields Value.IsPrimitive (negate v) := by
  unfold negate
  split
  · exact raised_integer
  · trivial
  · exact unsupported_yields _ _

theorem affirm_yields (v : Value) : Yields Value.IsPrimitive (affirm v) := by
  unfold affirm
  split <;> first | trivial | exact unsupported_yields _ _

theorem negateBool_yields (v : Value) : Yields Value.IsPrimitive (negateBool v) := by
  unfold negateBool
  split <;> first | trivial | exact unsupported_yields _ _

theorem complement_yields (v : Value) : Yields Value.IsPrimitive (complement v) := by
  unfold complement
  split <;> first | trivial | exact unsupported_yields _ _

/-- An operation on values computes primitive values. -/
def Operation.Sound : Operation → Prop
  | .binary f => ∀ l r, Yields Value.IsPrimitive (f l r)
  | .unary f => ∀ v, Yields Value.IsPrimitive (f v)
  | .step _ _ _ => True

theorem OperatorKey.operation?_sound {key : OperatorKey} {op : Operation} (h : key.operation? = some op) :
    op.Sound := by
  unfold operation? at h
  split at h <;> cases h
  case h_1 => exact plus_yields
  case h_2 | h_3 | h_4 | h_5 | h_6 => exact Arithmetic.apply_yields _
  case h_7 | h_8 => exact fun _ _ => trivial
  case h_9 | h_10 | h_11 | h_12 => exact Relation.apply_yields _
  case h_13 | h_14 | h_15 | h_16 | h_17 => exact Logic.apply_yields _
  case h_18 | h_19 => exact Shift.apply_yields _
  case h_20 => exact negate_yields
  case h_21 => exact affirm_yields
  case h_22 => exact negateBool_yields
  case h_23 => exact complement_yields
  all_goals trivial

/-- An operator on two slots that are written. -/
theorem OperatorKey.execute_binary {key : OperatorKey} {f : Value → Value → Except Failure Value} {s : Slots}
    {a b : Nat} {l r : Value} (op : key.operation? = some (.binary f)) (left : s.get? a = some l)
    (right : s.get? b = some r) : key.execute s [a, b] = (f l r).map .pure := by
  simp only [execute, op, Operation.run, Slots.read, left, right, ofCause]
  show f l r >>= _ = _
  cases f l r <;> rfl

/-- Everything that a result stores has the property `P`. -/
def Computed.All (P : Value → Prop) (c : Computed) : Prop :=
  P c.value ∧ ∀ ref v, c.stored = some (ref, v) → P v

theorem Computed.All.pure {P : Value → Prop} {v : Value} (h : P v) : (Computed.pure v).All P :=
  ⟨h, nofun⟩

/-- An operator computes and stores primitive values only. -/
theorem OperatorKey.execute_yields (key : OperatorKey) (s : Slots) (operands : List Nat) :
    Yields (Computed.All Value.IsPrimitive) (key.execute s operands) := by
  unfold execute
  split
  · rename_i op h
    have sound := operation?_sound h
    unfold Operation.run
    split
    · exact (read_yields s _).bind fun l _ => (read_yields s _).bind fun r _ => (sound l r).bind fun v hv => .pure hv
    · exact (read_yields s _).bind fun v _ => (sound v).bind fun w hw => .pure hw
    · refine (read_yields s _).bind fun v _ => ?_
      split
      · exact (Yields.raised fun _ => trivial).bind fun sum _ => ⟨trivial, fun ref v h => by cases h; trivial⟩
      · exact unsupported_yields _ _
    · exact nofun
  · exact nofun

end SlotVM
