/-
Values that differ in their slots only. Whatever a program can tell of a value without following its slots is
the same for both, and what an operator computes of such values is the same again: no operator looks at the
number of a slot other than to compare it with another one.
-/
import Mathlib.Data.List.Forall2
import SlotVM.Proofs.Operator.Outcome

namespace SlotVM

open Relator

/-! ## Values -/

/-- The same name, for corresponding slots. -/
def Named (ref : Nat → Nat → Prop) (a b : String × Nat) : Prop := a.1 = b.1 ∧ ref a.2 b.2

/-- Two values whose slots correspond, and that are the same in everything else. -/
inductive Value.Alike (ref : Nat → Nat → Prop) : Value → Value → Prop
  | primitive {v} (h : v.IsPrimitive) : Alike ref v v
  | array {a b} (h : List.Forall₂ ref a b) : Alike ref (.array a) (.array b)
  | tuple {a b} (h : List.Forall₂ ref a b) : Alike ref (.tuple a) (.tuple b)
  | record {a b} (h : List.Forall₂ (Named ref) a.entries b.entries) : Alike ref (.record a) (.record b)
  | function {id a b} (h : List.Forall₂ ref a b) : Alike ref (.function ⟨id, a⟩) (.function ⟨id, b⟩)

variable {ref : Nat → Nat → Prop}

theorem Named.unique (unique : BiUnique ref) : BiUnique (Named ref) := by
  constructor
  · rintro ⟨n, a⟩ ⟨n', b⟩ ⟨k, c⟩ ⟨hn, ha⟩ ⟨hn', hb⟩
    dsimp only at hn hn' ha hb
    rw [hn, hn', unique.1 ha hb]
  · rintro ⟨n, a⟩ ⟨n', b⟩ ⟨k, c⟩ ⟨hn, ha⟩ ⟨hn', hb⟩
    dsimp only at hn hn' ha hb
    rw [← hn, ← hn', unique.2 ha hb]

theorem lookup_named {name : String} : ∀ {a b : List (String × Nat)}, List.Forall₂ (Named ref) a b →
    Option.Rel ref (a.lookup name) (b.lookup name)
  | _, _, .nil => .none
  | (n, x) :: a, (n', y) :: b, .cons ⟨hn, hxy⟩ h => by
    dsimp only at hn
    subst hn
    rw [List.lookup_cons, List.lookup_cons]
    cases name == n with
    | true => exact .some hxy
    | false => exact lookup_named h

namespace Value.Alike

variable {v w l l' r r' : Value}

theorem kind_eq (h : Alike ref v w) : v.kind = w.kind := by
  cases h <;> rfl

theorem accepts_eq (h : Alike ref v w) (t : CatchType) : t.accepts v = t.accepts w := by
  cases t with
  | any => rfl
  | kind k => rw [CatchType.accepts, CatchType.accepts, h.kind_eq]

theorem integer?_eq (h : Alike ref v w) : v.integer? = w.integer? := by
  cases h <;> rfl

theorem bool?_eq (h : Alike ref v w) : v.bool? = w.bool? := by
  cases h <;> rfl

theorem isPrimitive_iff (h : Alike ref v w) : v.IsPrimitive ↔ w.IsPrimitive := by
  cases h <;> rfl

theorem eq_of_isPrimitive (h : Alike ref v w) (hv : v.IsPrimitive) : w = v := by
  cases h with
  | primitive => rfl
  | _ => exact hv.elim

theorem beq_lists {α : Type} [BEq α] [LawfulBEq α] {R : α → α → Prop} (unique : BiUnique R) {a a' b b' : List α}
    (ha : List.Forall₂ R a a') (hb : List.Forall₂ R b b') : (a == b) = (a' == b') := by
  rw [Bool.eq_iff_iff, beq_iff_eq, beq_iff_eq]
  exact rel_eq unique.forall₂ ha hb

theorem sameItems_eq {α : Type} [BEq α] [LawfulBEq α] {R : α → α → Prop} (unique : BiUnique R) {a a' b b' : List α}
    (ha : List.Forall₂ R a a') (hb : List.Forall₂ R b b') : sameItems a b = sameItems a' b' := by
  rw [sameItems_eq_beq, sameItems_eq_beq, beq_lists unique ha hb]

/-- A primitive value is equal to no composite one. -/
theorem beq_primitive (hl : l.IsPrimitive) (hr : ¬ r.IsPrimitive) : (l == r) = false ∧ (r == l) = false := by
  cases l <;> cases r <;> first | exact ⟨rfl, rfl⟩ | exact hl.elim | exact absurd trivial hr

/-- Equality of composite values is that of their slots. -/
theorem beq_eq (unique : BiUnique ref) (hl : Alike ref l l') (hr : Alike ref r r') : (l == r) = (l' == r') := by
  cases hl with
  | primitive hl =>
    by_cases h : r.IsPrimitive
    · rw [hr.eq_of_isPrimitive h]
    · rw [(beq_primitive hl h).1, (beq_primitive hl fun h' => h (hr.isPrimitive_iff.2 h')).1]
  | array ha =>
    cases hr with
    | primitive hr => rw [(beq_primitive hr id).2, (beq_primitive hr id).2]
    | array hb => exact sameItems_eq unique ha hb
    | _ => rfl
  | tuple ha =>
    cases hr with
    | primitive hr => rw [(beq_primitive hr id).2, (beq_primitive hr id).2]
    | tuple hb => exact sameItems_eq unique ha hb
    | _ => rfl
  | record ha =>
    cases hr with
    | primitive hr => rw [(beq_primitive hr id).2, (beq_primitive hr id).2]
    | record hb => exact sameItems_eq (Named.unique unique) ha hb
    | _ => rfl
  | @function f a a' ha =>
    cases hr with
    | primitive hr => rw [(beq_primitive hr id).2, (beq_primitive hr id).2]
    | @function g b b' hb =>
      show (f == g && a == b) = (f == g && a' == b')
      rw [beq_lists unique ha hb]
    | _ => rfl

end Value.Alike

/-! ## Values with other slots -/

/-- The fields with other slots. -/
def Fields.rename (slot : Nat → Nat) (f : Fields) : Fields :=
  ⟨f.entries.map fun e => (e.1, slot e.2), by rw [Ascending, List.pairwise_map]; exact f.ascending⟩

/-- The value with other slots. -/
def Value.rename (slot : Nat → Nat) : Value → Value
  | .array elements => .array (elements.map slot)
  | .tuple elements => .tuple (elements.map slot)
  | .record fields => .record (fields.rename slot)
  | .function c => .function { c with captured := c.captured.map slot }
  | .integer n => .integer n
  | .float x => .float x
  | .char c => .char c
  | .bool b => .bool b
  | .string s => .string s

theorem map_of_forall₂ {slot : Nat → Nat} (function : ∀ a b, ref a b → b = slot a) {a b : List Nat}
    (h : List.Forall₂ ref a b) : b = a.map slot := by
  induction h with
  | nil => rfl
  | cons hab h ih => rw [List.map_cons, ih, function _ _ hab]

theorem map_of_named {slot : Nat → Nat} (function : ∀ a b, ref a b → b = slot a) {a b : List (String × Nat)}
    (h : List.Forall₂ (Named ref) a b) : b = a.map fun e => (e.1, slot e.2) := by
  induction h with
  | nil => rfl
  | @cons x y a b hxy h ih => rw [List.map_cons, ih, hxy.1, ← function _ _ hxy.2]

/-- If a function tells which slots correspond, it tells which values do. -/
theorem Value.Alike.eq_rename {slot : Nat → Nat} (function : ∀ a b, ref a b → b = slot a) {v w : Value}
    (h : Value.Alike ref v w) : w = v.rename slot := by
  cases h with
  | primitive h => cases v <;> first | rfl | exact h.elim
  | array h => rw [map_of_forall₂ function h]; rfl
  | tuple h => rw [map_of_forall₂ function h]; rfl
  | @record a b h =>
    obtain ⟨entries, ascending⟩ := b
    have heq : entries = _ := map_of_named function h
    subst heq
    rfl
  | function h => rw [map_of_forall₂ function h]; rfl

theorem eq_map_of_alike {slot : Nat → Nat} (function : ∀ a b, ref a b → b = slot a) {a b : Option Value}
    (h : Option.Rel (Value.Alike ref) a b) : b = a.map (Value.rename slot) := by
  cases h with
  | none => rfl
  | some h => rw [h.eq_rename function]; rfl

theorem Value.rename_id (v : Value) : v.rename id = v := by
  cases v <;> simp [Value.rename, Fields.rename]

theorem Value.Alike.eq {v w : Value} (h : Value.Alike Eq v w) : w = v :=
  calc w = v.rename id := h.eq_rename fun _ _ hab => hab.symm
    _ = v := v.rename_id

theorem Value.Alike.refl [Std.Refl ref] (v : Value) : Value.Alike ref v v := by
  have named (e : String × Nat) : Named ref e e := ⟨rfl, Std.Refl.refl _⟩
  cases v with
  | array elements => exact .array (List.forall₂_refl _)
  | tuple elements => exact .tuple (List.forall₂_refl _)
  | record fields => exact .record (List.forall₂_same.2 fun e _ => named e)
  | function c => exact .function (List.forall₂_refl _)
  | _ => exact .primitive trivial

/-! ## Results -/

/-- Two computations yield corresponding results, raise the same failure, or both fault. -/
inductive Agree {α β : Type} (R : α → β → Prop) : Except Failure α → Except Failure β → Prop
  | ok {a b} (h : R a b) : Agree R (.ok a) (.ok b)
  | raised (r : Raised) : Agree R (.error (.raised r)) (.error (.raised r))
  | fault (c c' : Cause) : Agree R (.error (.fault c)) (.error (.fault c'))

namespace Agree

variable {α β γ δ : Type} {R : α → β → Prop} {S : γ → δ → Prop}

theorem bind {r : Except Failure α} {r' : Except Failure β} {k : α → Except Failure γ} {k' : β → Except Failure δ}
    (h : Agree R r r') (hk : ∀ a b, R a b → Agree S (k a) (k' b)) : Agree S (r >>= k) (r' >>= k') := by
  cases h with
  | ok h => exact hk _ _ h
  | raised r => exact .raised r
  | fault c c' => exact .fault c c'

theorem bindCause {r : Except Cause α} {r' : Except Cause β} {k : α → Except Cause γ} {k' : β → Except Cause δ}
    (h : Agree R (ofCause r) (ofCause r')) (hk : ∀ a b, R a b → Agree S (ofCause (k a)) (ofCause (k' b))) :
    Agree S (ofCause (r >>= k)) (ofCause (r' >>= k')) := by
  cases r with
  | ok a =>
    cases r' with
    | ok b => cases h with | ok h => exact hk a b h
    | error c => cases h
  | error c =>
    cases r' with
    | ok b => cases h
    | error c' => exact .fault c c'

/-- A computation that does not depend on slots. -/
theorem refl {Q : α → Prop} {R : α → α → Prop} {r : Except Failure α} (h : Yields Q r) (hQ : ∀ a, Q a → R a a) :
    Agree R r r := by
  cases r with
  | ok a => exact .ok (hQ a h)
  | error e =>
    cases e with
    | raised r => exact .raised r
    | fault c => exact .fault c c

end Agree

/-- Reading corresponding slots. -/
theorem Slots.read_agree {s s' : Slots} {a b : Nat} (h : Option.Rel (Value.Alike ref) (s.get? a) (s'.get? b)) :
    Agree (Value.Alike ref) (ofCause (s.read a)) (ofCause (s'.read b)) := by
  unfold Slots.read
  generalize s.get? a = x at h ⊢
  generalize s'.get? b = y at h ⊢
  cases h with
  | some h => exact .ok h
  | none => exact .fault _ _

/-! ## Operators -/

/-- The slots that a result stores into correspond, and the values are alike. -/
structure Computed.Alike (ref : Nat → Nat → Prop) (c c' : Computed) : Prop where
  value : Value.Alike ref c.value c'.value
  stored : Option.Rel (fun a b => ref a.1 b.1 ∧ Value.Alike ref a.2 b.2) c.stored c'.stored

theorem Computed.Alike.pure {v w : Value} (h : Value.Alike ref v w) :
    Computed.Alike ref (.pure v) (.pure w) := ⟨h, .none⟩

section
variable {l r v : Value}

theorem Arithmetic.apply_composite (op : Arithmetic) (h : ¬ (l.IsPrimitive ∧ r.IsPrimitive)) :
    ∃ c, op.apply l r = .error (.fault c) := by
  unfold Arithmetic.apply
  split
  · exact absurd ⟨trivial, trivial⟩ h
  · exact absurd ⟨trivial, trivial⟩ h
  · exact ⟨_, rfl⟩

theorem plus_composite (h : ¬ (l.IsPrimitive ∧ r.IsPrimitive)) : ∃ c, plus l r = .error (.fault c) := by
  unfold plus
  split
  · exact absurd ⟨trivial, trivial⟩ h
  · exact absurd ⟨trivial, trivial⟩ h
  · exact Arithmetic.apply_composite _ h

theorem Relation.apply_composite (op : Relation) (h : ¬ (l.IsPrimitive ∧ r.IsPrimitive)) :
    ∃ c, op.apply l r = .error (.fault c) := by
  unfold Relation.apply
  split <;> first | exact ⟨_, rfl⟩ | exact absurd ⟨trivial, trivial⟩ h

theorem Logic.apply_composite (op : Logic) (h : ¬ (l.IsPrimitive ∧ r.IsPrimitive)) :
    ∃ c, op.apply l r = .error (.fault c) := by
  unfold Logic.apply
  split <;> first | exact ⟨_, rfl⟩ | exact absurd ⟨trivial, trivial⟩ h

theorem Shift.apply_composite (op : Shift) (h : ¬ (l.IsPrimitive ∧ r.IsPrimitive)) :
    ∃ c, op.apply l r = .error (.fault c) := by
  unfold Shift.apply
  split
  · exact absurd ⟨trivial, trivial⟩ h
  · exact ⟨_, rfl⟩

/-- An operation on values has alike results for alike operands. -/
def Operation.Respects (ref : Nat → Nat → Prop) : Operation → Prop
  | .binary f => ∀ l l' r r', Value.Alike ref l l' → Value.Alike ref r r' → Agree (Value.Alike ref) (f l r) (f l' r')
  | .unary f => ∀ v v', Value.Alike ref v v' → Agree (Value.Alike ref) (f v) (f v')
  | .step _ _ _ => True

theorem Operation.respects_binary {f : Value → Value → Except Failure Value}
    (sound : ∀ l r, Yields Value.IsPrimitive (f l r))
    (composite : ∀ {l r : Value}, ¬ (l.IsPrimitive ∧ r.IsPrimitive) → ∃ c, f l r = .error (.fault c)) :
    (Operation.binary f).Respects ref := by
  intro l l' r r' hl hr
  by_cases h : l.IsPrimitive ∧ r.IsPrimitive
  · rw [hl.eq_of_isPrimitive h.1, hr.eq_of_isPrimitive h.2]
    exact .refl (sound l r) fun _ => .primitive
  · obtain ⟨c, hc⟩ := composite h
    rw [hl.isPrimitive_iff, hr.isPrimitive_iff] at h
    obtain ⟨c', hc'⟩ := composite h
    rw [hc, hc']
    exact .fault c c'

theorem Operation.respects_unary {f : Value → Except Failure Value} (sound : ∀ v, Yields Value.IsPrimitive (f v))
    (composite : ∀ {v : Value}, ¬ v.IsPrimitive → ∃ c, f v = .error (.fault c)) :
    (Operation.unary f).Respects ref := by
  intro v v' hv
  by_cases h : v.IsPrimitive
  · rw [hv.eq_of_isPrimitive h]
    exact .refl (sound v) fun _ => .primitive
  · obtain ⟨c, hc⟩ := composite h
    rw [hv.isPrimitive_iff] at h
    obtain ⟨c', hc'⟩ := composite h
    rw [hc, hc']
    exact .fault c c'

theorem negate_composite (h : ¬ v.IsPrimitive) : ∃ c, negate v = .error (.fault c) := by
  cases v <;> first | exact absurd trivial h | exact ⟨_, rfl⟩

theorem affirm_composite (h : ¬ v.IsPrimitive) : ∃ c, affirm v = .error (.fault c) := by
  cases v <;> first | exact absurd trivial h | exact ⟨_, rfl⟩

theorem negateBool_composite (h : ¬ v.IsPrimitive) : ∃ c, negateBool v = .error (.fault c) := by
  cases v <;> first | exact absurd trivial h | exact ⟨_, rfl⟩

theorem complement_composite (h : ¬ v.IsPrimitive) : ∃ c, complement v = .error (.fault c) := by
  cases v <;> first | exact absurd trivial h | exact ⟨_, rfl⟩

end

theorem OperatorKey.operation?_respects (unique : BiUnique ref) {key : OperatorKey} {op : Operation}
    (h : key.operation? = some op) : op.Respects ref := by
  unfold operation? at h
  split at h <;> cases h
  case h_1 => exact Operation.respects_binary plus_yields plus_composite
  case h_2 | h_3 | h_4 | h_5 | h_6 =>
    exact Operation.respects_binary (Arithmetic.apply_yields _) (Arithmetic.apply_composite _)
  case h_7 =>
    intro l l' r r' hl hr
    show Agree _ (.ok (Value.bool (l == r))) (.ok (Value.bool (l' == r')))
    rw [hl.beq_eq unique hr]
    exact .ok (.primitive trivial)
  case h_8 =>
    intro l l' r r' hl hr
    show Agree _ (.ok (Value.bool !(l == r))) (.ok (Value.bool !(l' == r')))
    rw [hl.beq_eq unique hr]
    exact .ok (.primitive trivial)
  case h_9 | h_10 | h_11 | h_12 =>
    exact Operation.respects_binary (Relation.apply_yields _) (Relation.apply_composite _)
  case h_13 | h_14 | h_15 | h_16 | h_17 =>
    exact Operation.respects_binary (Logic.apply_yields _) (Logic.apply_composite _)
  case h_18 | h_19 => exact Operation.respects_binary (Shift.apply_yields _) (Shift.apply_composite _)
  case h_20 => exact Operation.respects_unary negate_yields negate_composite
  case h_21 => exact Operation.respects_unary affirm_yields affirm_composite
  case h_22 => exact Operation.respects_unary negateBool_yields negateBool_composite
  case h_23 => exact Operation.respects_unary complement_yields complement_composite
  all_goals trivial

/-- Running an operator on corresponding slots. -/
theorem OperatorKey.execute_agree (unique : BiUnique ref) (key : OperatorKey) {s s' : Slots}
    (hs : ∀ a b, ref a b → Option.Rel (Value.Alike ref) (s.get? a) (s'.get? b)) {operands operands' : List Nat}
    (ho : List.Forall₂ ref operands operands') :
    Agree (Computed.Alike ref) (key.execute s operands) (key.execute s' operands') := by
  unfold execute
  split
  · rename_i op h
    have respects := operation?_respects unique h
    match op, ho with
    | .binary f, .cons ha (.cons hb .nil) =>
      refine (Slots.read_agree (hs _ _ ha)).bind fun l l' hl => ?_
      refine (Slots.read_agree (hs _ _ hb)).bind fun r r' hr => ?_
      exact (respects l l' r r' hl hr).bind fun v v' hv => .ok (.pure hv)
    | .unary f, .cons ha .nil =>
      refine (Slots.read_agree (hs _ _ ha)).bind fun v v' hv => ?_
      exact (respects v v' hv).bind fun w w' hw => .ok (.pure hw)
    | .step symbol delta old, .cons ha .nil =>
      refine (Slots.read_agree (hs _ _ ha)).bind fun v v' hv => ?_
      cases hv with
      | @primitive v hv =>
        cases v with
        | integer n =>
          refine (Agree.refl (R := fun a b => a = b) (Yields.raised (Q := fun _ => True) fun _ => trivial)
            fun _ _ => rfl).bind fun sum sum' hsum => ?_
          subst hsum
          exact .ok ⟨.primitive trivial, .some ⟨ha, .primitive trivial⟩⟩
        | _ => exact .fault _ _
      | _ => exact .fault _ _
    | .binary f, .nil | .binary f, .cons _ .nil | .binary f, .cons _ (.cons _ (.cons _ _)) => exact .fault _ _
    | .unary f, .nil | .unary f, .cons _ (.cons _ _) => exact .fault _ _
    | .step symbol delta old, .nil | .step symbol delta old, .cons _ (.cons _ _) => exact .fault _ _
  · exact .fault _ _

end SlotVM
