/-
Laws of the equality of values. `value_equality`: it is symmetric and transitive, only what is not a number differs from
itself, and composites are equal if they refer to the same slots, whatever these hold. A record is told by what its
names refer to, so two lists of fields make equal records if the last fields of every name agree.
-/
import SlotVM.Machine.Assign
import SlotVM.Proofs.Operator.Outcome

namespace SlotVM

/-! ## Floating-point numbers -/

section
open Float.Model

/-- What a floating-point number is compared as: both zeros as one, and what is not a number as nothing. -/
def floatComparand? : UnpackedFloat → Option UnpackedFloat
  | .notANumber => none
  | .zero _ => some (.zero .positive)
  | .infinity s => some (.infinity s)
  | .finite s m e h => some (.finite s m e h)

theorem compare_eq_iff {x y : UnpackedFloat} :
    x.compare y = some .eq ↔ ∃ n, floatComparand? x = some n ∧ floatComparand? y = some n := by
  have same (x y : UnpackedFloat) : (∃ n, some x = some n ∧ some y = some n) ↔ y = x := by simp
  have sign (s t : UnpackedFloat.Sign) : compare s t = .eq ↔ t = s := by cases s <;> cases t <;> simp [compare]
  have magnitude (e e' : Int) (m m' : Nat) : (compare e e').then (compare m m') = .eq ↔ m' = m ∧ e' = e := by
    rw [Ordering.then_eq_eq, Std.compare_eq_iff_eq, Std.compare_eq_iff_eq, and_comm, eq_comm, @eq_comm _ e]
  cases x with
  | notANumber => exact iff_of_false nofun fun ⟨_, h, _⟩ => nomatch h
  | infinity s => cases y with
    | infinity t =>
      refine Iff.trans ?_ (same _ _).symm
      rw [UnpackedFloat.infinity.injEq, ← sign]
      exact Option.some_inj
    | _ => cases s <;> exact iff_of_false nofun (by rintro ⟨_, ⟨⟩, ⟨⟩⟩)
  | zero s => cases y with
    | zero t => exact iff_of_true rfl ⟨_, rfl, rfl⟩
    | infinity t | finite t => cases t <;> exact iff_of_false nofun (by rintro ⟨_, ⟨⟩, ⟨⟩⟩)
    | notANumber => exact iff_of_false nofun (by rintro ⟨_, ⟨⟩, ⟨⟩⟩)
  | finite s m e hm => cases y with
    | finite t m' e' hm' =>
      refine Iff.trans ?_ (same _ _).symm
      rw [UnpackedFloat.finite.injEq, ← magnitude]
      cases s <;> cases t
      · exact (Option.some_inj.trans Ordering.swap_eq_eq).trans (and_iff_right rfl).symm
      · exact iff_of_false nofun fun h => nomatch h.1
      · exact iff_of_false nofun fun h => nomatch h.1
      · exact Option.some_inj.trans (and_iff_right rfl).symm
    | infinity t => cases s <;> cases t <;> exact iff_of_false nofun (by rintro ⟨_, ⟨⟩, ⟨⟩⟩)
    | zero | notANumber => cases s <;> exact iff_of_false nofun (by rintro ⟨_, ⟨⟩, ⟨⟩⟩)

/-- Floating-point numbers are equal if they are compared as the same number. -/
theorem float_beq {x y : Float} : (x == y) = true ↔
    ∃ n, floatComparand? x.toModel.unpack = some n ∧ floatComparand? y.toModel.unpack = some n := by
  rw [← compare_eq_iff]
  show (x.toModel.unpack.compare y.toModel.unpack == some .eq) = true ↔ _
  exact beq_iff_eq

theorem float_beq_self {x : Float} : (x == x) = true ↔ x.isNaN = false := by
  rw [float_beq]
  show _ ↔ x.toModel.unpack.isNaN = false
  cases x.toModel.unpack with
  | notANumber => exact iff_of_false (fun ⟨_, h, _⟩ => nomatch h) nofun
  | _ => exact ⟨fun _ => rfl, fun _ => ⟨_, rfl, rfl⟩⟩

end

/-! ## Fields -/

/-- The slot of the last field with a name. -/
def lastField (name : String) (l : List (String × Nat)) : Option Nat := l.reverse.lookup name

theorem lookup_cons_eq_ite {name n : String} {r : Nat} {l : List (String × Nat)} :
    ((n, r) :: l).lookup name = if name = n then some r else l.lookup name := by
  rw [List.lookup_cons]
  by_cases h : name = n
  · rw [if_pos h, h, beq_self_eq_true]
  · rw [if_neg h, beq_eq_false_iff_ne.2 h]

theorem lookup_insertField {name other : String} {ref : Nat} : ∀ {l : List (String × Nat)},
    (insertField name ref l).lookup other = if other = name then some ref else l.lookup other
  | [] => by rw [insertField, lookup_cons_eq_ite]
  | (n, r) :: rest => by
    unfold insertField
    split
    · rw [lookup_cons_eq_ite]
    · split
      · rename_i heq
        rw [lookup_cons_eq_ite, lookup_cons_eq_ite, heq]
        split <;> rfl
      · rename_i hne
        rw [lookup_cons_eq_ite, lookup_cons_eq_ite, lookup_insertField]
        by_cases h : other = n
        · rw [if_pos h, if_pos h, if_neg (h ▸ Ne.symm hne)]
        · rw [if_neg h, if_neg h]

namespace Fields

theorem get?_insert (f : Fields) (name other : String) (ref : Nat) :
    (f.insert name ref).get? other = if other = name then some ref else f.get? other := lookup_insertField

/-- Of fields that are set one after the other, the last one of each name stays. -/
theorem get?_inserted (name : String) : ∀ (l : List (String × Nat)) (f : Fields),
    (l.foldl (fun f p => f.insert p.1 p.2) f).get? name = (lastField name l).or (f.get? name)
  | [], f => rfl
  | (n, r) :: l, f => by
    have last : lastField name ((n, r) :: l) = (lastField name l).or (if name = n then some r else none) := by
      rw [lastField, List.reverse_cons, List.lookup_append, lookup_cons_eq_ite]; rfl
    rw [List.foldl_cons, get?_inserted name l, get?_insert, last, Option.or_assoc]
    split <;> rfl

theorem get?_ofList (l : List (String × Nat)) (name : String) : (ofList l).get? name = lastField name l := by
  rw [ofList, get?_inserted]
  exact Option.or_none

end Fields

theorem lookup_of_below {name : String} {l : List (String × Nat)} (h : ∀ p ∈ l, name < p.1) : l.lookup name = none := by
  rw [List.lookup_eq_none_iff]
  intro p hp
  exact bne_iff_ne.2 (String.ne_of_lt (h p hp))

/-- Lists with the same entries begin with the same name. -/
theorem not_lt_head {n n' : String} {r r' : Nat} {l l' : List (String × Nat)} (below : ∀ p ∈ l', n' < p.1)
    (h : ((n, r) :: l).lookup n = ((n', r') :: l').lookup n) : ¬ n < n' := by
  intro lt
  have none : ((n', r') :: l').lookup n = none :=
    lookup_of_below (List.forall_mem_cons.2 ⟨lt, fun p hp => String.lt_trans lt (below p hp)⟩)
  rw [List.lookup_cons_self, none] at h
  cases h

/-- Ascending lists are told by what each name refers to. -/
theorem Ascending.ext : ∀ {l l' : List (String × Nat)}, Ascending l → Ascending l' →
    (∀ name, l.lookup name = l'.lookup name) → l = l'
  | [], [], _, _, _ => rfl
  | [], (n, r) :: l', _, _, h => by
    have := h n
    rw [List.lookup_cons_self] at this
    cases this
  | (n, r) :: l, [], _, _, h => by
    have := h n
    rw [List.lookup_cons_self] at this
    cases this
  | (n, r) :: l, (n', r') :: l', hl, hl', h => by
    obtain ⟨below, rest⟩ := List.pairwise_cons.1 hl
    obtain ⟨below', rest'⟩ := List.pairwise_cons.1 hl'
    have name : n = n' := String.le_antisymm (String.not_lt.1 (not_lt_head below (h n').symm))
      (String.not_lt.1 (not_lt_head below' (h n)))
    subst name
    have ref : r = r' := by
      have := h n
      rwa [List.lookup_cons_self, List.lookup_cons_self, Option.some.injEq] at this
    have tails (name : String) : l.lookup name = l'.lookup name := by
      by_cases head : name = n
      · rw [head, lookup_of_below below, lookup_of_below below']
      · have := h name
        rwa [lookup_cons_eq_ite, lookup_cons_eq_ite, if_neg head, if_neg head] at this
    have tail : l = l' := Ascending.ext rest rest' tails
    rw [ref, tail]

/-! ## Values -/

/-- The laws of the equality of values. -/
structure EqualityLaws : Prop where
  symm : ∀ v w : Value, (v == w) = (w == v)
  trans : ∀ u v w : Value, (u == v) = true → (v == w) = true → (u == w) = true
  /-- Only what is not a number differs from itself. -/
  refl : ∀ v : Value, (v == v) = true ↔ ¬ ∃ x, v = .float x ∧ x.isNaN = true
  kind : ∀ v w : Value, (v == w) = true → v.kind = w.kind
  array : ∀ a b, (Value.array a == .array b) = true ↔ a = b
  tuple : ∀ a b, (Value.tuple a == .tuple b) = true ↔ a = b
  function : ∀ f g : Closure, (Value.function f == .function g) = true ↔
    f.function = g.function ∧ f.captured = g.captured
  record : ∀ f g : Fields, (Value.record f == .record g) = true ↔ ∀ name, f.get? name = g.get? name
  /-- Records that instructions make of any lists of fields. -/
  made : ∀ (m m' : Machine) (l l' : List (String × Nat)), ∃ v w, m.evaluate (.record l) = .ok (.pure v) ∧
    m'.evaluate (.record l') = .ok (.pure w) ∧
    ((v == w) = true ↔ ∀ name, lastField name l = lastField name l')
  /-- Programs compare values by nothing but the values. -/
  operator : ∀ (m : Machine) (a b : Nat) (v w : Value), m.slots.get? a = some v → m.slots.get? b = some w →
    m.evaluate (.binary a ⟨.eq, .between⟩ b) = .ok (.pure (.bool (v == w)))

theorem sameItems_iff {α : Type} [BEq α] [LawfulBEq α] {a b : List α} : sameItems a b = true ↔ a = b := by
  rw [sameItems_eq_beq, beq_iff_eq]

theorem record_beq {f g : Fields} : (Value.record f == .record g) = true ↔ ∀ name, f.get? name = g.get? name := by
  show sameItems f.entries g.entries = true ↔ _
  rw [sameItems_iff]
  constructor
  · intro h name
    rw [Fields.get?, Fields.get?, h]
  · exact f.ascending.ext g.ascending

theorem function_beq {f g : Closure} : (Value.function f == .function g) = true ↔
    f.function = g.function ∧ f.captured = g.captured := by
  show (f.function == g.function && f.captured == g.captured) = true ↔ _
  rw [Bool.and_eq_true, beq_iff_eq, beq_iff_eq]

/-- Values other than floating-point numbers are equal if they are the same. -/
theorem beq_iff_eq_of_kind {v w : Value} (h : v.kind ≠ .float) : (v == w) = true ↔ v = w := by
  cases v with
  | integer a => cases w with
    | integer b =>
      show (a == b) = true ↔ _
      rw [beq_iff_eq, Value.integer.injEq]
    | _ => exact ⟨nofun, nofun⟩
  | char a => cases w with
    | char b =>
      show (a == b) = true ↔ _
      rw [beq_iff_eq, Value.char.injEq]
    | _ => exact ⟨nofun, nofun⟩
  | bool a => cases w with
    | bool b =>
      show (a == b) = true ↔ _
      rw [beq_iff_eq, Value.bool.injEq]
    | _ => exact ⟨nofun, nofun⟩
  | string a => cases w with
    | string b =>
      show (a == b) = true ↔ _
      rw [beq_iff_eq, Value.string.injEq]
    | _ => exact ⟨nofun, nofun⟩
  | array a => cases w with
    | array b => exact sameItems_iff.trans (Value.array.injEq a b).to_iff.symm
    | _ => exact ⟨nofun, nofun⟩
  | tuple a => cases w with
    | tuple b => exact sameItems_iff.trans (Value.tuple.injEq a b).to_iff.symm
    | _ => exact ⟨nofun, nofun⟩
  | record f => cases w with
    | record g =>
      rw [Value.record.injEq, Fields.mk.injEq]
      exact sameItems_iff
    | _ => exact ⟨nofun, nofun⟩
  | function f => cases w with
    | function g => rw [function_beq, Value.function.injEq, Closure.mk.injEq]
    | _ => exact ⟨nofun, nofun⟩
  | float => exact absurd rfl h

/-- What a value is compared as. -/
def Value.comparand? : Value → Option (Float.Model.UnpackedFloat ⊕ Value)
  | .float x => (floatComparand? x.toModel.unpack).map .inl
  | v => some (.inr v)

theorem comparand?_of_kind {v : Value} (h : v.kind ≠ .float) : v.comparand? = some (.inr v) := by
  cases v <;> first | rfl | exact absurd rfl h

/-- Values are equal if they are compared as the same. -/
theorem value_beq {v w : Value} : (v == w) = true ↔ ∃ n, v.comparand? = some n ∧ w.comparand? = some n := by
  by_cases hv : v.kind = .float
  · cases v <;> cases hv
    rename_i x
    cases w with
    | float y =>
      refine float_beq.trans ⟨?_, ?_⟩
      · rintro ⟨n, hx, hy⟩
        exact ⟨.inl n, by rw [Value.comparand?, hx]; rfl, by rw [Value.comparand?, hy]; rfl⟩
      · rintro ⟨_, hx, hy⟩
        obtain ⟨n, hn, rfl⟩ := Option.map_eq_some_iff.1 hx
        obtain ⟨_, hn', same⟩ := Option.map_eq_some_iff.1 hy
        cases same
        exact ⟨n, hn, hn'⟩
    | _ => exact ⟨nofun, by simp [Value.comparand?]⟩
  · rw [beq_iff_eq_of_kind hv, comparand?_of_kind hv]
    by_cases hw : w.kind = .float
    · cases w <;> cases hw
      refine ⟨fun h => absurd (congrArg Value.kind h) hv, by simp [Value.comparand?]⟩
    · simp [comparand?_of_kind hw, eq_comm]

theorem Machine.evaluate_operator {m : Machine} {key : OperatorKey} {f : Value → Value → Except Failure Value}
    {a b : Nat} {l r : Value} (op : key.operation? = some (.binary f)) (left : m.slots.get? a = some l)
    (right : m.slots.get? b = some r) : m.evaluate (.binary a key b) = (f l r).map .pure :=
  OperatorKey.execute_binary op left right

/-- Values are compared by what they hold, and composites by the slots that they refer to. -/
theorem value_equality : EqualityLaws where
  symm v w := by
    rw [Bool.eq_iff_iff, value_beq, value_beq]
    exact exists_congr fun n => and_comm
  trans u v w huv hvw := by
    obtain ⟨n, hu, hv⟩ := value_beq.1 huv
    obtain ⟨n', hv', hw⟩ := value_beq.1 hvw
    rw [hv] at hv'
    cases hv'
    exact value_beq.2 ⟨n, hu, hw⟩
  refl v := by
    by_cases hv : v.kind = .float
    · cases v <;> cases hv
      rename_i x
      refine float_beq_self.trans ⟨?_, fun h => ?_⟩
      · rintro number ⟨_, ⟨⟩, nan⟩
        rw [number] at nan
        cases nan
      · exact Bool.eq_false_iff.2 fun nan => h ⟨x, rfl, nan⟩
    · refine iff_of_true ((beq_iff_eq_of_kind hv).2 rfl) ?_
      rintro ⟨x, rfl, -⟩
      exact hv rfl
  kind v w h := by
    cases v <;> cases w <;> first | rfl | cases h
  array a b := sameItems_iff
  tuple a b := sameItems_iff
  function f g := function_beq
  record f g := record_beq
  made m m' l l' := by
    refine ⟨_, _, rfl, rfl, ?_⟩
    simp only [record_beq, Fields.get?_ofList]
  operator m a b v w left right := by
    have op : (⟨.eq, .between⟩ : OperatorKey).operation? = some (.binary fun l r => .ok (.bool (l == r))) := rfl
    exact m.evaluate_operator op left right

end SlotVM
