/-
Instructions that compute a value and store it are atomic, and write only what they name. `stores_atomically`: one that
fails leaves slots, constants and the stack as they were, and one that does not fail changes its target, the slot that
a composite refers to, the operand that it counts up or down, or one constant.
-/
import SlotVM.Proofs.Operator.Exact
import SlotVM.Proofs.Store.Written

namespace SlotVM

open Transition

/-! ## What is written -/

/-- The instructions that do nothing but compute and store. -/
def Instruction.isStore : Instruction → Bool
  | .assign _ _ | .setField _ _ _ | .setIndex _ _ _ | .setConstant _ _ => true
  | _ => false

/-- What an operator adds to the number in its operand. -/
def OperatorKey.delta? (key : OperatorKey) : Option Int :=
  match key.fixity, key.symbol with
  | .before, .increment | .after, .increment => some 1
  | .before, .decrement | .after, .decrement => some (-1)
  | _, _ => none

/-- The slots `t` are those of `s`, but for one that holds `v`. -/
def Slots.Stored (s : Slots) (target : Nat) (v : Value) (t : Slots) : Prop :=
  ∀ ref, t.get? ref = if ref = target then some v else s.get? ref

theorem Slots.stored_write (s : Slots) (target : Nat) (v : Value) : s.Stored target v (s.write target v) :=
  fun ref => s.get?_write target ref v

namespace Machine

/-- Wherever a composite of `m` refers to the slot `component`, the value `v` is read in `y`. The composite and the
position must lie in other slots. -/
structure Seen (m y : Machine) (component : Nat) (v : Value) : Prop where
  field : ∀ c name, c ≠ component → m.fieldRef c name = .ok component → y.evaluate (.field c name) = .ok (.pure v)
  element : ∀ c position, c ≠ component → m.elementRef c position = .ok component →
    y.evaluate (.element c position) = .ok (.pure v)
  index : ∀ c position, c ≠ component → position ≠ component → m.indexRef c position = .ok component →
    y.evaluate (.index c position) = .ok (.pure v)

/-- The slots and the constants after an instruction that computes and stores. -/
inductive Effect (m : Machine) : Instruction → Slots → Constants → Prop
  | target {target source v slots} (value : m.evaluate source = .ok (.pure v))
      (plain : ∀ key operand, source = .unary key operand → key.delta? = none) (stored : m.slots.Stored target v slots) :
      Effect m (.assign target source) slots m.constants
  /-- The operand counts up or down, and then the target is written, which may be the same slot. -/
  | step {target operand slots} {key : OperatorKey} {delta : Int} {n sum : Int64} (steps : key.delta? = some delta)
      (number : m.slots.get? operand = some (.integer n)) (added : sum.toInt = n.toInt + delta)
      (stored : ∀ ref, slots.get? ref =
        if ref = target then some (.integer (if key.fixity = .after then n else sum))
        else if ref = operand then some (.integer sum)
        else m.slots.get? ref) : Effect m (.assign target (.unary key operand)) slots m.constants
  | field {ref name value component v slots} {fields : Fields} (record : m.slots.get? ref = some (.record fields))
      (found : fields.get? name = some component) (source : m.slots.get? value = some v)
      (stored : m.slots.Stored component v slots) (seen : Seen m { m with slots } component v) :
      Effect m (.setField ref name value) slots m.constants
  | element {ref index value component v slots} {elements : List Nat} {position : Int64}
      (array : m.slots.get? ref = some (.array elements)) (number : m.slots.get? index = some (.integer position))
      (nonneg : 0 ≤ position.toInt) (found : elements[position.toInt.toNat]? = some component)
      (source : m.slots.get? value = some v) (stored : m.slots.Stored component v slots)
      (seen : Seen m { m with slots } component v) : Effect m (.setIndex ref index value) slots m.constants
  | constant {id value v constants} (source : m.slots.get? value = some v) (unset : m.constants.get? id = none)
      (set : ∀ other, constants.get? other = if other = id then some v else m.constants.get? other) :
      Effect m (.setConstant id value) m.slots constants

/-- How an instruction ends that computes and stores. -/
inductive Stores (m : Machine) (i : Instruction) : Transition → Prop
  /-- Nothing but the pending error has changed. -/
  | raised {failure} (raises : m.Raises failure i) : Stores m i
      ⟨[.raised m.function m.pc failure, .thrown (.string failure.message) m.slots],
        .ok { m with pending := .active (.string failure.message) }⟩
  | faulted {fault} (left : fault.left = { m with regions := [] }) : Stores m i ⟨[], .error fault⟩
  | stored {slots constants} (effect : Effect m i slots constants) :
      Stores m i ⟨[], .ok { m with slots, constants, pc := m.pc + 1 }⟩

end Machine

/-! ## What operators write -/

theorem Constants.set_ok {c d : Constants} {id : Nat} {v : Value} (h : c.set id v = .ok d) :
    c.get? id = none ∧ ∀ other, d.get? other = if other = id then some v else c.get? other := by
  unfold set set? contains at h
  cases unset : c.get? id with
  | some w => rw [unset] at h; cases h
  | none =>
    rw [unset] at h
    cases h
    refine ⟨rfl, fun other => ?_⟩
    show ((id, v) :: c.entries).lookup other = _
    rw [List.lookup_cons]
    by_cases heq : other = id
    · rw [if_pos heq, heq, beq_self_eq_true]
    · rw [if_neg heq, beq_eq_false_iff_ne.2 heq]; rfl

theorem ofCause_ok {α : Type} {r : Except Cause α} {a : α} (h : ofCause r = .ok a) : r = .ok a := by
  cases r <;> cases h
  rfl

theorem ofRaised_ok {α : Type} {r : Except Raised α} {a : α} (h : ofRaised r = .ok a) : r = .ok a := by
  cases r <;> cases h
  rfl

section
variable {key : OperatorKey} {symbol : Symbol} {delta : Int} {old : Bool}

theorem OperatorKey.delta?_of_step (h : key.operation? = some (.step symbol delta old)) :
    key.delta? = some delta ∧ (old = true ↔ key.fixity = .after) := by
  obtain ⟨symbol, fixity⟩ := key
  unfold operation? at h
  split at h <;> cases h
  all_goals simp_all [delta?]

theorem OperatorKey.step_of_delta? (h : key.delta? = some delta) :
    ∃ symbol old, key.operation? = some (.step symbol delta old) := by
  obtain ⟨symbol, fixity⟩ := key
  unfold delta? at h
  split at h <;> cases h
  all_goals simp_all [operation?]

/-- An operator stores nothing, or counts its operand up or down. -/
theorem OperatorKey.execute_computed {s : Slots} {operands : List Nat} {c : Computed}
    (h : key.execute s operands = .ok c) : (key.delta? = none ∧ ∃ v, c = .pure v) ∨
      ∃ delta operand n, ∃ sum : Int64, key.delta? = some delta ∧ operands = [operand] ∧
        s.get? operand = some (.integer n) ∧ sum.toInt = n.toInt + delta ∧
        c = ⟨.integer (if key.fixity = .after then n else sum), some (operand, .integer sum)⟩ := by
  unfold execute at h
  split at h
  · rename_i op hop
    have plain (hne : ∀ symbol delta old, op ≠ .step symbol delta old) : key.delta? = none := by
      cases hd : key.delta? with
      | none => rfl
      | some delta =>
        obtain ⟨symbol, old, hstep⟩ := step_of_delta? hd
        rw [hop] at hstep
        exact absurd (Option.some.inj hstep) (hne symbol delta old)
    unfold Operation.run at h
    split at h
    · obtain ⟨l, -, h⟩ := bind_ok.1 h
      obtain ⟨r, -, h⟩ := bind_ok.1 h
      obtain ⟨v, -, h⟩ := bind_ok.1 h
      cases h
      exact .inl ⟨plain nofun, v, rfl⟩
    · obtain ⟨l, -, h⟩ := bind_ok.1 h
      obtain ⟨v, -, h⟩ := bind_ok.1 h
      cases h
      exact .inl ⟨plain nofun, v, rfl⟩
    · rename_i symbol delta old operand
      obtain ⟨v, hv, h⟩ := bind_ok.1 h
      split at h
      · rename_i n
        obtain ⟨sum, hsum, h⟩ := bind_ok.1 h
        cases h
        obtain ⟨hdelta, hfixity⟩ := delta?_of_step hop
        have hold : (if old = true then n else sum) = if key.fixity = .after then n else sum := by simp only [hfixity]
        exact .inr ⟨delta, operand, n, sum, hdelta, rfl, Slots.read_eq_ok.1 (ofCause_ok hv),
          fitted_eq_ok.1 (ofRaised_ok hsum), by rw [hold]⟩
      · cases h
    · cases h
  · cases h

end

namespace Machine

variable {p : Program} {m y : Machine} {i : Instruction} {source : Source} {c : Computed} {component : Nat} {v : Value}

/-! ## What is read from composites -/

theorem load_of_get? {ref : Nat} (h : m.slots.get? ref = some v) : m.load ref = .ok v := by
  rw [load, Slots.read_eq_ok.2 h]; rfl

theorem load_congr {ref : Nat} (h : y.slots.get? ref = m.slots.get? ref) : y.load ref = m.load ref := by
  rw [load, load, Slots.read, Slots.read, h]

/-- A composite in another slot still refers to the slot that was written. -/
theorem seen (stored : m.slots.Stored component v y.slots) : Seen m y component v := by
  have same {ref : Nat} (hne : ref ≠ component) : y.load ref = m.load ref :=
    load_congr ((stored ref).trans (if_neg hne))
  have written : y.load component = .ok v := load_of_get? ((stored component).trans (if_pos rfl))
  have read {r : Except Failure Nat} (refers : r = .ok component) :
      (do return Computed.pure (← y.load (← r)) : Except Failure Computed) = .ok (.pure v) := by
    rw [refers]
    show y.load component >>= _ = _
    rw [written]; rfl
  constructor
  · intro c name hc refers
    have unchanged : y.fieldRef c name = m.fieldRef c name := by rw [fieldRef, fieldRef, same hc]
    exact read (unchanged.trans refers)
  · intro c position hc refers
    have unchanged : y.elementRef c position = m.elementRef c position := by rw [elementRef, elementRef, same hc]
    exact read (unchanged.trans refers)
  · intro c position hc hp refers
    have unchanged : y.indexRef c position = m.indexRef c position := by rw [indexRef, indexRef, same hc, same hp]
    exact read (unchanged.trans refers)

/-! ## What instructions write -/

theorem evaluate_effect (h : m.evaluate source = .ok c) (target : Nat) :
    Effect m (.assign target source) ((c.store m.slots).write target c.value) m.constants := by
  have pure {v : Value} (value : m.evaluate source = .ok (.pure v))
      (plain : ∀ key operand, source = .unary key operand → key.delta? = none) :
      Effect m (.assign target source) (m.slots.write target v) m.constants :=
    .target value plain (m.slots.stored_write target v)
  cases source with
  | unary key operand =>
    obtain ⟨plain, v, rfl⟩ | ⟨delta, operand', n, sum, steps, heq, number, added, rfl⟩ :=
      OperatorKey.execute_computed h
    · refine pure h ?_
      rintro _ _ ⟨⟩
      exact plain
    · cases heq
      -- the operand is written before the target, so the target has the last word
      refine .step steps number added fun ref => ?_
      rw [Slots.get?_write]
      exact congrArg _ (Slots.get?_write ..)
  | binary left key right =>
    rcases OperatorKey.execute_computed h with ⟨-, v, rfl⟩ | ⟨delta, operand, n, sum, -, heq, -⟩
    · exact pure h nofun
    · cases heq
  | integer | float | char | bool | string | array | tuple | record | function =>
    cases h
    exact pure rfl nofun
  | copy | param | constant | error =>
    obtain ⟨w, -, h'⟩ := bind_ok.1 h
    cases h'
    exact pure h nofun
  | field | element | index | named =>
    obtain ⟨r, -, h'⟩ := bind_ok.1 h
    obtain ⟨w, -, h'⟩ := bind_ok.1 h'
    cases h'
    exact pure h nofun
  | apply =>
    obtain ⟨w, -, h'⟩ := bind_ok.1 h
    split at h'
    · cases h'
      exact pure h nofun
    · cases h'

/-- An instruction stores what it has computed, if it has computed it. -/
theorem conclude_stores {α : Type} {r : Except Failure α} {change : Machine → α → Machine}
    (raises : ∀ failure, r = .error (.raised failure) → m.Raises failure i)
    (effect : ∀ a, r = .ok a → ∃ slots constants, Effect m i slots constants ∧ change m a = { m with slots, constants }) :
    Stores m i (m.conclude r change) := by
  cases r with
  | ok a =>
    obtain ⟨slots, constants, h, hchange⟩ := effect a rfl
    rw [conclude, hchange]
    exact .stored h
  | error failure =>
    cases failure with
    | raised failure => exact .raised (raises failure rfl)
    | fault cause => exact .faulted rfl

/-- Every instruction that computes and stores does all or nothing, and writes only what it names: from any state, and
whatever slots its operands have in common. -/
theorem stores_atomically (p : Program) (m : Machine) {i : Instruction} (store : i.isStore = true) :
    Stores m i (m.perform p i) ∧
      (p.At m.function m.pc i → m.execute p = note (.executing m.function m.pc i) (m.perform p i)) := by
  refine ⟨?_, ?_⟩
  · cases i with
    | assign target source =>
      rw [perform]
      refine conclude_stores (fun failure h => h) fun c h => ?_
      exact ⟨_, _, evaluate_effect h target, rfl⟩
    | setField ref name value =>
      rw [perform]
      refine conclude_stores (fun failure h => h) ?_
      rintro ⟨component, v⟩ h
      obtain ⟨component', hc, h⟩ := bind_ok.1 h
      obtain ⟨w, load, h⟩ := bind_ok.1 h
      cases h
      obtain ⟨fields, record, found⟩ := fieldRef_record hc
      have stored := m.slots.stored_write component v
      exact ⟨_, _, .field record found (load_ok load) stored (seen stored), rfl⟩
    | setIndex ref index value =>
      -- as for a field, but the position is itself read from a slot
      rw [perform]
      refine conclude_stores (fun failure h => h) ?_
      rintro ⟨component, v⟩ h
      obtain ⟨component', hc, h⟩ := bind_ok.1 h
      obtain ⟨w, load, h⟩ := bind_ok.1 h
      cases h
      obtain ⟨elements, position, array, number, nonneg, found⟩ := indexRef_array hc
      have stored := m.slots.stored_write component v
      exact ⟨_, _, .element array number nonneg found (load_ok load) stored (seen stored), rfl⟩
    | setConstant id value =>
      rw [perform]
      refine conclude_stores (fun failure h => h) fun constants h => ?_
      obtain ⟨v, load, h⟩ := bind_ok.1 h
      obtain ⟨unset, set⟩ := Constants.set_ok (ofCause_ok h)
      exact ⟨_, _, .constant (load_ok load) unset set, rfl⟩
    | _ => cases store
  · rintro ⟨f, hf, hi⟩
    simp only [execute, hf, hi]

/-- A number that is counted up into its own slot is the number of before: the target is written last. -/
theorem stores_atomically_alias : ∃ (p : Program) (m y : Machine), m.slots.get? 0 = some (.integer 5) ∧
    (Instruction.assign 0 (.unary ⟨.increment, .after⟩ 0)).isStore = true ∧
    Stores m (.assign 0 (.unary ⟨.increment, .after⟩ 0)) ⟨[], .ok y⟩ ∧
    m.perform p (.assign 0 (.unary ⟨.increment, .after⟩ 0)) = ⟨[], .ok y⟩ ∧ y.slots.get? 0 = some (.integer 5) := by
  let p : Program := ⟨#[]⟩
  let m : Machine := { (default : Machine) with slots := (Slots.empty 1).write 0 (.integer 5) }
  let y : Machine := { m with slots := (m.slots.write 0 (.integer 6)).write 0 (.integer 5), pc := m.pc + 1 }
  have performs : m.perform p (.assign 0 (.unary ⟨.increment, .after⟩ 0)) = ⟨[], .ok y⟩ := rfl
  exact ⟨p, m, y, rfl, rfl, performs ▸ (stores_atomically p m rfl).1, performs, rfl⟩

end Machine

end SlotVM
