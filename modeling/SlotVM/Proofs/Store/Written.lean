/-
The slots that a run writes. `Move.writes`: a transition stores values in slots that the store already has,
since the slot is one that the program mentions or one that a value mentions. So nothing but a start makes the
store grow.
-/
import SlotVM.Proofs.Machine.Holding

namespace SlotVM

/-- A store of this size has all slots that the value mentions. -/
def Value.Closed (size : Nat) (v : Value) : Prop := ∀ ref ∈ v.refs, ref < size

/-- Values were stored in some of the first `size` slots of `s`. -/
inductive Slots.Written (size : Nat) (s : Slots) : Slots → Prop
  | refl : Written size s s
  | write {t ref} (h : Written size s t) (lt : ref < size) (v : Value) : Written size s (t.write ref v)

variable {size ref : Nat} {s t : Slots} {v : Value}

namespace Slots.Written

theorem size_eq (h : Written s.size s t) : t.size = s.size := by
  induction h with
  | refl => rfl
  | write h lt v ih => rw [size_write, ih, Nat.max_eq_left lt]

/-- A slot that holds a value goes on to hold one. -/
theorem isSome (h : Written size s t) (held : (s.get? ref).isSome = true) : (t.get? ref).isSome = true := by
  induction h with
  | refl => exact held
  | write h lt v ih =>
    rw [get?_write]
    split
    · rfl
    · exact ih

end Slots.Written

/-! ## Values -/

theorem Value.IsPrimitive.closed (h : v.IsPrimitive) : v.Closed size := by
  intro ref mem
  cases v with
  | integer | float | char | bool | string => cases mem
  | array | tuple | record | function => cases h

theorem Value.Closed.mono {size' : Nat} (h : v.Closed size) (le : size ≤ size') : v.Closed size' :=
  fun ref hr => Nat.lt_of_lt_of_le (h ref hr) le

theorem Fields.mem_ofList {field : String × Nat} {l : List (String × Nat)} (h : field ∈ (ofList l).entries) : field ∈ l := by
  have folded : ∀ (l : List (String × Nat)) (f : Fields), field ∈ (l.foldl (fun f p => f.insert p.1 p.2) f).entries →
      field ∈ f.entries ∨ field ∈ l := by
    intro l
    induction l with
    | nil => exact fun f h => .inl h
    | cons entry l ih =>
      intro f h
      rcases ih _ h with h | h
      · rcases mem_insertField h with rfl | h
        · exact .inr (List.mem_cons_self ..)
        · exact .inl h
      · exact .inr (List.mem_cons_of_mem _ h)
  exact (folded l .empty h).resolve_left nofun

theorem Fields.mem_of_get? {f : Fields} {name : String} (h : f.get? name = some ref) : (name, ref) ∈ f.entries := by
  obtain ⟨above, below, entries, -⟩ := List.lookup_eq_some_iff.1 h
  rw [entries]
  exact List.mem_append_right _ (List.mem_cons_self ..)

/-- The slots that a written value mentions are slots that its instruction mentions. -/
theorem Source.refs_literal {source : Source} (h : source.literal? = some v) (mem : ref ∈ v.refs) : ref ∈ source.refs := by
  cases source with
  | record fields =>
    -- of two fields with one name the later stays, so slots may be missing, but none is added
    cases h
    obtain ⟨field, hf, rfl⟩ := List.mem_map.1 mem
    exact List.mem_map_of_mem (Fields.mem_ofList hf)
  | array | tuple => cases h; exact mem
  | integer | float | char | bool | string | function => cases h; cases mem
  | copy | param | field | element | index | apply | binary | unary | constant | error | named => cases h

/-- The instructions of a program mention slots that the store has, so they make such values only. -/
theorem Program.makes_closed {p : Program} (refs : ∀ ref ∈ p.refs, ref < size) : p.Makes (Value.Closed size) where
  primitive v h := h.closed
  literal at_ h ref mem := refs ref (mem_refs at_ (List.mem_cons_of_mem _ (Source.refs_literal h mem)))
  applied at_ h ref mem := by
    rcases List.mem_append.1 mem with mem | mem
    · exact h ref mem
    · exact refs ref (mem_refs at_ (List.mem_cons_of_mem _ (List.mem_cons_of_mem _ mem)))

/-- Calls return their values into slots that the program mentions. -/
theorem Stacked.returnTarget_mem {p : Program} : ∀ {ks : List FrameKind}, Stacked p ks → ∀ c, .call c ∈ ks →
    ∀ target, c.returnTarget = some target → target ∈ p.refs
  | k :: below, ⟨rests, stacked⟩, c, hc, target, ht => by
    rcases List.mem_cons.1 hc with rfl | hc
    · rcases rests.call with ⟨entry, -⟩ | ⟨i, d, -, from_⟩
      · rw [entry.returnTarget] at ht; cases ht
      · obtain ⟨pc, target', ref, args, -, at_, into⟩ := from_.caller
        rw [into] at ht
        cases ht
        exact Program.mem_refs at_ (List.mem_cons_self ..)
    · exact stacked.returnTarget_mem c hc target ht

/-! ## Where instructions store -/

/-- An operator stores into the slot of its operand, if anywhere. -/
theorem OperatorKey.stored_mem {key : OperatorKey} {operands : List Nat} {c : Computed}
    (h : key.execute s operands = .ok c) (stored : c.stored = some (ref, v)) : ref ∈ operands := by
  unfold execute at h
  split at h
  · rename_i op _
    unfold Operation.run at h
    split at h
    · obtain ⟨l, -, h⟩ := bind_ok.1 h
      obtain ⟨r, -, h⟩ := bind_ok.1 h
      obtain ⟨w, -, h⟩ := bind_ok.1 h
      cases h; cases stored
    · obtain ⟨l, -, h⟩ := bind_ok.1 h
      obtain ⟨w, -, h⟩ := bind_ok.1 h
      cases h; cases stored
    · obtain ⟨w, -, h⟩ := bind_ok.1 h
      split at h
      · obtain ⟨sum, -, h⟩ := bind_ok.1 h
        cases h; cases stored
        exact List.mem_cons_self ..
      · cases h
    · cases h
  · cases h

namespace Machine

variable {p : Program} {m m' : Machine} {es : List Event}

theorem load_ok (h : m.load ref = .ok v) : m.slots.get? ref = some v := by
  unfold load at h
  cases hr : m.slots.read ref with
  | ok w => rw [hr] at h; cases h; exact Slots.read_eq_ok.1 hr
  | error c => rw [hr] at h; cases h

/-- An assignment stores into slots that it mentions. -/
theorem evaluate_stored {source : Source} {c : Computed} (h : m.evaluate source = .ok c)
    (stored : c.stored = some (ref, v)) : ref ∈ source.refs := by
  cases source with
  | binary left op right => exact OperatorKey.stored_mem h stored
  | unary op operand => exact OperatorKey.stored_mem h stored
  | integer | float | char | bool | string | array | tuple | record | function => cases h; cases stored
  | copy | param | constant | error =>
    obtain ⟨w, -, h⟩ := bind_ok.1 h
    cases h; cases stored
  | field | element | index | named =>
    obtain ⟨r, -, h⟩ := bind_ok.1 h
    obtain ⟨w, -, h⟩ := bind_ok.1 h
    cases h; cases stored
  | apply =>
    obtain ⟨w, -, h⟩ := bind_ok.1 h
    split at h
    · cases h; cases stored
    · cases h

theorem fieldRef_record {record : Nat} {name : String} (h : m.fieldRef record name = .ok ref) :
    ∃ fields, m.slots.get? record = some (.record fields) ∧ fields.get? name = some ref := by
  obtain ⟨v, load, h⟩ := bind_ok.1 h
  split at h
  · rename_i fields
    unfold orFault at h
    split at h
    · rename_i found
      cases h
      exact ⟨fields, load_ok load, found⟩
    · cases h
  · cases h

/-- A field refers to a slot that a value mentions. -/
theorem fieldRef_ok {record : Nat} {name : String} (h : m.fieldRef record name = .ok ref) :
    ∃ v, m.slots.get? record = some v ∧ ref ∈ v.refs := by
  obtain ⟨fields, held, found⟩ := fieldRef_record h
  exact ⟨_, held, List.mem_map_of_mem (Fields.mem_of_get? found)⟩

theorem indexRef_array {array index : Nat} (h : m.indexRef array index = .ok ref) :
    ∃ elements position, m.slots.get? array = some (.array elements) ∧ m.slots.get? index = some (.integer position) ∧
      0 ≤ position.toInt ∧ elements[position.toInt.toNat]? = some ref := by
  obtain ⟨v, load, h⟩ := bind_ok.1 h
  split at h
  · rename_i elements
    obtain ⟨w, loadIndex, h⟩ := bind_ok.1 h
    split at h
    · rename_i position number
      rw [Value.integer?_eq_some.1 number] at loadIndex
      split at h
      · rename_i found
        cases h
        unfold elementAt? at found
        split at found
        · cases found
        · rename_i nonneg
          exact ⟨elements, position, load_ok load, load_ok loadIndex,
            Int.not_lt.1 fun neg => nonneg (Int64.lt_iff_toInt_lt.2 neg), found⟩
      · cases h
    · cases h
  · cases h

/-- An array element refers to a slot that a value mentions. -/
theorem indexRef_ok {array index : Nat} (h : m.indexRef array index = .ok ref) :
    ∃ v, m.slots.get? array = some v ∧ ref ∈ v.refs := by
  obtain ⟨elements, position, held, -, -, found⟩ := indexRef_array h
  exact ⟨_, held, List.mem_of_getElem? found⟩

/-! ## Transitions -/

/-- The store has all slots that calls under way return their values into. -/
def Awaits (m : Machine) (size : Nat) : Prop :=
  ∀ c, .call c ∈ m.stack.kinds → ∀ target, c.returnTarget = some target → target < size

theorem Awaits.pop (h : m.Awaits size) {f : Frame} {rest : Stack} (top : m.stack = rest.push f) :
    { m with stack := rest }.Awaits size :=
  fun c hc => h c (by rw [top]; exact List.mem_cons_of_mem _ hc)

theorem Carries.writes {t : Transfer} (go : m.Carries t es m') (h : m.Awaits size) :
    m.slots.Written size m'.slots := by
  induction go with
  | popped | caught | uncaught | cleanup | left | ended => exact .refl
  | pass seeks room top passes go ih => exact ih (h.pop top)
  | @abort m scope catches es m' f rest call seeks room top kind go ih =>
    have aborted : ({ m with stack := rest }.goBack call.caller).Awaits size := by
      intro c hc
      rw [goBack_stack] at hc
      exact h.pop top c hc
    have slots : ({ m with stack := rest }.goBack call.caller).slots = m.slots := by
      cases call.caller <;> rfl
    exact slots ▸ ih aborted
  | @returned m value explicit call k f rest room top kind caller =>
    have mem : .call call ∈ m.stack.kinds := by
      rw [top, Stack.kinds_push, kind]
      exact List.mem_cons_self ..
    show m.slots.Written size ({ m with stack := rest }.received call value k).slots
    cases hv : call.returnTarget with
    | none =>
      simp only [received, hv]
      exact .refl
    | some target =>
      cases value <;> simp only [received, hv]
      · exact .refl
      · exact .write .refl (h call mem target hv) _

/-- Instructions store into slots that they mention and into the components of composites. -/
theorem Performs.writes {i : Instruction} (go : m.Performs p i es m') (holding : m.Holding (Value.Closed size))
    (awaits : m.Awaits size) (refs : ∀ ref ∈ i.refs, ref < size) : m.slots.Written size m'.slots := by
  have component {v : Value} {composite ref : Nat} (hv : m.slots.get? composite = some v) (mem : ref ∈ v.refs) :
      ref < size := holding.slots composite v hv ref mem
  cases go with
  | @assign target source c h =>
    -- an operator that counts up stores into its operand before the target is written
    have hops : m.slots.Written size (c.store m.slots) := by
      unfold Computed.store
      split
      · rename_i ref v stored
        exact .write .refl (refs ref (List.mem_cons_of_mem _ (evaluate_stored h stored))) v
      · exact .refl
    exact .write hops (refs target (List.mem_cons_self ..)) _
  | setField h =>
    obtain ⟨component', hc, h⟩ := bind_ok.1 h
    obtain ⟨w, -, h⟩ := bind_ok.1 h
    cases h
    obtain ⟨v, hv, mem⟩ := fieldRef_ok hc
    exact .write .refl (component hv mem) _
  | setIndex h =>
    obtain ⟨component', hc, h⟩ := bind_ok.1 h
    obtain ⟨w, -, h⟩ := bind_ok.1 h
    cases h
    obtain ⟨v, hv, mem⟩ := indexRef_ok hc
    exact .write .refl (component hv mem) _
  | setConstant | raise | call | bind | push | pop | popCleanup | jump | nop | throw => exact .refl
  | branch | branchConstant => split <;> exact .refl
  | ret h go => exact go.writes awaits
  | exitLoop go => exact go.writes awaits

theorem Ends.slots_eq {r : Region} {outer : List Region} {exit : RegionExit} (ends : m.Ends r outer exit m') :
    m'.slots = m.slots := by
  cases ends <;> rfl

/-- Every transition stores into slots that the store has. -/
theorem Move.writes (move : m.Move p es m') (holding : m.Holding (Value.Closed size)) (awaits : m.Awaits size)
    (refs : ∀ ref ∈ p.refs, ref < size) : m.slots.Written size m'.slots := by
  have resumed {r : Region} {outer : List Region} {exit : RegionExit} {x : Machine} (ends : m.Ends r outer exit x) :
      x.Awaits size := fun c hc => awaits c (ends.stack_eq ▸ hc)
  cases move with
  | execute runs function code go =>
    exact go.writes holding awaits fun ref mem => refs ref (Program.mem_refs ⟨_, function, code⟩ mem)
  | fallOff runs function code go => exact go.writes awaits
  | search active room go => exact go.writes awaits
  | complete ends go => exact ends.slots_eq ▸ go.writes (resumed ends)
  | abandonSearch ends transfer go => exact ends.slots_eq ▸ go.writes (resumed ends)
  | abandonReturn ends transfer => exact ends.slots_eq ▸ .refl
  | abandon ends transfer => exact ends.slots_eq ▸ .refl

end Machine

end SlotVM
