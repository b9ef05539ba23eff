/-
The operators that compare agree with each other and with the equality of values. `comparisons_agree`: for whatever
values two slots hold, `==` and `!=` yield opposite truth values. The other four order integers, characters and strings
totally, strings by the code points of their characters, and to order any other values than two floating-point numbers
is a fault.
-/
import SlotVM.Proofs.Text.ByteOrder
import SlotVM.Proofs.Value.Equality

namespace SlotVM

/-! ## The order of values -/

/-- The kinds whose values are totally ordered. -/
def orderedKinds : List Kind := [.integer, .char, .string]

/-- Values of one kind in their order: integers by number, characters by code point, and strings as words in a
dictionary, by the code points of their characters. -/
inductive Value.Precedes : Value → Value → Prop
  | integer {a b : Int64} (h : a.toInt < b.toInt) : Precedes (.integer a) (.integer b)
  | char {c d : Char} (h : c.toNat < d.toNat) : Precedes (.char c) (.char d)
  | string {s t : String} (h : codePoints s < codePoints t) : Precedes (.string s) (.string t)

theorem Value.Precedes.trans {u v w : Value} (huv : u.Precedes v) (hvw : v.Precedes w) : u.Precedes w := by
  cases huv with
  | integer h => cases hvw with | integer h' => exact .integer (Int.lt_trans h h')
  | char h => cases hvw with | char h' => exact .char (Nat.lt_trans h h')
  | string h => cases hvw with | string h' => exact .string (lt_trans h h')

/-- The values `l` and `r` compare as `o`, and `r` and `l` the other way round. -/
structure Value.Compares (l r : Value) (o : Ordering) : Prop where
  applies : ∀ relation : Relation, relation.apply l r = .ok (.bool (relation.holds o))
  swapped : ∀ relation : Relation, relation.apply r l = .ok (.bool (relation.holds o.swap))
  lt : o = .lt ↔ l.Precedes r
  eq : o = .eq ↔ (l == r) = true

theorem compares_integers (a b : Int64) : Value.Compares (.integer a) (.integer b) (compare a b) where
  applies _ := rfl
  swapped relation := by rw [← Std.OrientedCmp.eq_swap]; rfl
  lt := compareOfLessAndEq_eq_lt.trans <| Int64.lt_iff_toInt_lt.trans ⟨.integer, fun h => by cases h; assumption⟩
  eq := Std.LawfulEqCmp.compare_eq_iff_eq.trans beq_iff_eq.symm

theorem compares_chars (c d : Char) : Value.Compares (.char c) (.char d) (compare c d) where
  applies _ := rfl
  swapped relation := by rw [← Std.OrientedCmp.eq_swap]; rfl
  lt := compareOfLessAndEq_eq_lt.trans ⟨.char, fun h => by cases h; assumption⟩
  eq := Std.LawfulEqCmp.compare_eq_iff_eq.trans beq_iff_eq.symm

theorem compares_strings (s t : String) : Value.Compares (.string s) (.string t) (compareText s t) where
  applies _ := rfl
  swapped relation := by rw [← compareText_swap]; rfl
  lt := compareText_lt.trans ⟨.string, fun h => by cases h; assumption⟩
  eq := compareText_eq.trans beq_iff_eq.symm

theorem compares {l r : Value} (same : l.kind = r.kind) (ordered : l.kind ∈ orderedKinds) : ∃ o, l.Compares r o := by
  cases l with
  | integer a => cases r <;> cases same; exact ⟨_, compares_integers ..⟩
  | char c => cases r <;> cases same; exact ⟨_, compares_chars ..⟩
  | string s => cases r <;> cases same; exact ⟨_, compares_strings ..⟩
  | _ => simp [orderedKinds, Value.kind] at ordered

theorem Value.Precedes.compares {l r : Value} (h : l.Precedes r) : l.Compares r .lt := by
  obtain ⟨same, ordered⟩ : l.kind = r.kind ∧ l.kind ∈ orderedKinds := by
    cases h <;> simp [orderedKinds, Value.kind]
  obtain ⟨o, compares⟩ := SlotVM.compares same ordered
  exact compares.lt.2 h ▸ compares

/-- Only two values of one ordered kind, or two floating-point numbers, can be compared. -/
theorem apply_mismatch {l r : Value} (h : ¬ (l.kind = r.kind ∧ l.kind ∈ .float :: orderedKinds)) (relation : Relation) :
    relation.apply l r = mismatch relation.symbol l r := by
  unfold Relation.apply
  split
  case h_5 => rfl
  all_goals exact absurd ⟨rfl, by simp [orderedKinds, Value.kind]⟩ h

/-! ## The operators -/

namespace Machine

/-- The operator `symbol` yields the truth value `holds` for the slots `a` and `b`. -/
def Tells (m : Machine) (a : Nat) (symbol : Symbol) (b : Nat) (holds : Bool) : Prop :=
  m.evaluate (.binary a ⟨symbol, .between⟩ b) = .ok (.pure (.bool holds))

/-- The slots `a` and `b` hold values, `l` and `r`, of a kind that the operators order totally. -/
structure TotallyOrdered (m : Machine) (a b : Nat) (l r : Value) : Prop where
  /-- Exactly one of `<`, `==` and `>` holds, and the other operators follow from these. -/
  trichotomy : ∃ lt eq gt, [lt, eq, gt].count true = 1 ∧ m.Tells a .lt b lt ∧ m.Tells a .eq b eq ∧ m.Tells a .gt b gt ∧
    m.Tells a .le b (lt || eq) ∧ m.Tells a .ge b (gt || eq) ∧ m.Tells b .gt a lt ∧ m.Tells b .lt a gt
  precedes : m.Tells a .lt b true ↔ l.Precedes r
  trans : ∀ c, m.Tells a .lt b true → m.Tells b .lt c true → m.Tells a .lt c true

/-- What the operators tell of the values `l` and `r` in the slots `a` and `b`. -/
structure Comparisons (m : Machine) (a b : Nat) (l r : Value) : Prop where
  eq : m.Tells a .eq b (l == r)
  ne : m.Tells a .ne b (!(l == r))
  ordered : l.kind = r.kind → l.kind ∈ orderedKinds → m.TotallyOrdered a b l r
  /-- To order anything else but two floating-point numbers is a fault, which the program cannot catch. -/
  fault : ¬ (l.kind = r.kind ∧ l.kind ∈ .float :: orderedKinds) → ∀ relation : Relation,
    m.evaluate (.binary a ⟨relation.symbol, .between⟩ b) =
      .error (.fault (.binaryKinds relation.symbol l.kind r.kind))

variable {m : Machine} {a b : Nat} {l r : Value}

theorem evaluate_relation (left : m.slots.get? a = some l) (right : m.slots.get? b = some r) (relation : Relation) :
    m.evaluate (.binary a ⟨relation.symbol, .between⟩ b) = (relation.apply l r).map .pure := by
  have op : (⟨relation.symbol, .between⟩ : OperatorKey).operation? = some (.binary relation.apply) := by
    cases relation <;> rfl
  exact evaluate_operator op left right

theorem tells_eq (left : m.slots.get? a = some l) (right : m.slots.get? b = some r) : m.Tells a .eq b (l == r) := by
  have op : (⟨.eq, .between⟩ : OperatorKey).operation? = some (.binary fun l r => .ok (.bool (l == r))) := rfl
  exact evaluate_operator op left right

theorem tells_ne (left : m.slots.get? a = some l) (right : m.slots.get? b = some r) : m.Tells a .ne b (!(l == r)) := by
  have op : (⟨.ne, .between⟩ : OperatorKey).operation? = some (.binary fun l r => .ok (.bool (l != r))) := rfl
  exact evaluate_operator op left right

/-- A value of an ordered kind is only less than values of that kind. -/
theorem precedes_of_tells (left : m.slots.get? a = some l) (ordered : l.kind ∈ orderedKinds)
    (h : m.Tells a .lt b true) : ∃ r, m.slots.get? b = some r ∧ l.Precedes r := by
  cases right : m.slots.get? b with
  | none =>
    simp only [Tells, evaluate, OperatorKey.execute, OperatorKey.operation?, Operation.run, Slots.read, left, right,
      ofCause] at h
    cases h
  | some r =>
    have applies : (Relation.less.apply l r).map Computed.pure = .ok (.pure (.bool true)) :=
      (evaluate_relation left right .less).symm.trans h
    by_cases same : l.kind = r.kind
    · obtain ⟨o, compares⟩ := compares same ordered
      rw [compares.applies] at applies
      have less : o.isLT = true := by simpa [Except.map, Computed.pure, Relation.holds] using applies
      exact ⟨r, rfl, compares.lt.1 (Ordering.isLT_iff_eq_lt.1 less)⟩
    · rw [apply_mismatch fun h => same h.1] at applies
      cases applies

theorem tells_of_precedes (left : m.slots.get? a = some l) (right : m.slots.get? b = some r) (h : l.Precedes r) :
    m.Tells a .lt b true := by
  refine (evaluate_relation left right .less).trans ?_
  rw [h.compares.applies]; rfl

theorem totallyOrdered (left : m.slots.get? a = some l) (right : m.slots.get? b = some r) (same : l.kind = r.kind)
    (ordered : l.kind ∈ orderedKinds) : m.TotallyOrdered a b l r := by
  obtain ⟨o, compares⟩ := compares same ordered
  have tells (relation : Relation) : m.Tells a relation.symbol b (relation.holds o) := by
    rw [Tells, evaluate_relation left right, compares.applies]; rfl
  have swapped (relation : Relation) : m.Tells b relation.symbol a (relation.holds o.swap) := by
    rw [Tells, evaluate_relation right left, compares.swapped]; rfl
  have equal : m.Tells a .eq b o.isEq := by
    have := tells_eq left right
    rwa [Bool.eq_iff_iff.2 (compares.eq.symm.trans Ordering.isEq_iff_eq_eq.symm)] at this
  have precedes : m.Tells a .lt b true ↔ l.Precedes r := by
    refine ⟨fun h => ?_, tells_of_precedes left right⟩
    obtain ⟨_, right', precedes⟩ := precedes_of_tells left ordered h
    rw [right] at right'
    cases right'
    exact precedes
  have trichotomy : [o.isLT, o.isEq, o.isGT].count true = 1 := by cases o <;> rfl
  have le : o.isLE = (o.isLT || o.isEq) := by cases o <;> rfl
  have ge : o.isGE = (o.isGT || o.isEq) := by cases o <;> rfl
  have gt_swap : o.swap.isGT = o.isLT := by cases o <;> rfl
  have lt_swap : o.swap.isLT = o.isGT := by cases o <;> rfl
  exact
    { trichotomy := ⟨o.isLT, o.isEq, o.isGT, trichotomy, tells .less, equal, tells .greater, le ▸ tells .lessOrEqual,
        ge ▸ tells .greaterOrEqual, gt_swap ▸ swapped .greater, lt_swap ▸ swapped .less⟩
      precedes
      trans := by
        intro c hb hc
        obtain ⟨v, last, precedes'⟩ := precedes_of_tells right (same ▸ ordered) hc
        exact tells_of_precedes left last ((precedes.1 hb).trans precedes') }

/-- The six operators that compare agree, on whatever values. -/
theorem comparisons_agree (left : m.slots.get? a = some l) (right : m.slots.get? b = some r) :
    Comparisons m a b l r where
  eq := tells_eq left right
  ne := tells_ne left right
  ordered same ordered := totallyOrdered left right same ordered
  fault h relation := by
    rw [evaluate_relation left right, apply_mismatch h]
    rfl

/-- A character of three bytes precedes one of four: strings are ordered by code points, as they are not in UTF-16. -/
theorem comparisons_agree_codePoints : ∃ m : Machine, m.slots.get? 0 = some (.string "～") ∧
    m.slots.get? 1 = some (.string "😀") ∧ m.Tells 0 .lt 1 true := by
  let m : Machine := { (default : Machine) with slots := ((Slots.empty 2).write 0 (.string "～")).write 1 (.string "😀") }
  have left : m.slots.get? 0 = some (.string "～") := rfl
  have right : m.slots.get? 1 = some (.string "😀") := rfl
  have precedes : (Value.string "～").Precedes (.string "😀") := .string (by decide)
  exact ⟨m, left, right, ((comparisons_agree left right).ordered rfl (by decide)).precedes.2 precedes⟩

end Machine

end SlotVM
