/-
The store is closed. Whatever a machine holds mentions slots that its store has, and the store has the slots of
the program and one for each argument of each start. `references_closed` says it for every sequence of starts
and transitions.
-/
import SlotVM.Proofs.Store.Written
import SlotVM.Proofs.Machine.Scopes

namespace SlotVM

namespace Machine

/-- A start, with the machines before and after it. -/
structure Start where
  args : List String
  before : Machine
  after : Machine

/-- The store got the slot in this start. -/
def Start.Allocates (s : Start) (id : Nat) : Prop := s.before.slots.size ≤ id ∧ id < s.after.slots.size

/-- Starts and transitions that lead from `m` to another machine, and the starts among them in their order. -/
inductive History (p : Program) (m : Machine) : List Start → Machine → Prop
  | refl : History p m [] m
  | start {starts x y args} (h : History p m starts x) (start : x.start args = .ok y) :
      History p m (starts ++ [⟨args, x, y⟩]) y
  | advance {starts x y es} (h : History p m starts x) (running : x.halted = false)
      (move : x.advance p = ⟨es, .ok y⟩) : History p m starts y

/-- After some starts, and the transitions between them, everything that the machine and the program mention is a
slot of the store. -/
structure ReferencesClosed (p : Program) (starts : List Start) (m : Machine) : Prop where
  size : m.slots.size = p.slotCount + (starts.flatMap (·.args)).length
  instructions : ∀ function pc i, p.At function pc i → ∀ ref ∈ i.refs, ref < m.slots.size
  values : m.Holding fun v => ∀ ref ∈ v.refs, ref < m.slots.size
  bindings : ∀ f ∈ m.stack.frames, ∀ name ref, f.scope.get? name = some ref → ref < m.slots.size
  targets : ∀ c, .call c ∈ m.stack.kinds → ∀ target, c.returnTarget = some target → target < m.slots.size
  /-- No transition makes the store grow. -/
  kept : ∀ es m', m.halted = false → m.advance p = ⟨es, .ok m'⟩ → m'.slots.size = m.slots.size
  written : ∀ later m', History p m later m' → ∀ ref, (m.slots.get? ref).isSome = true →
    (m'.slots.get? ref).isSome = true
  /-- The arguments of the next start are in slots of their own. -/
  arguments : ∀ args m', m.start args = .ok m' → ∃ ids : List Nat, m'.param 0 = .ok (.array ids) ∧ ids.length = args.length ∧
    ∀ (i id : Nat), ids[i]? = some id → id ∉ p.refs ∧ (∀ s ∈ starts, ¬ s.Allocates id) ∧
      m'.slots.get? id = args[i]?.map .string

variable {p : Program} {m m' x : Machine} {es : List Event} {starts : List Start}

/-! ## Starts -/

theorem size_started (m : Machine) (args : List String) :
    (m.started args).slots.size = m.slots.size + args.length := Slots.size_allocated args m.slots

theorem get?_started (m : Machine) (args : List String) (id : Nat) : (m.started args).slots.get? id =
    if id < m.slots.size then m.slots.get? id else args[id - m.slots.size]?.map .string :=
  Slots.get?_allocated args m.slots id

/-- The parameter of the entry function is the array of the slots that the start gets. -/
theorem param_started (m : Machine) (args : List String) :
    (m.started args).param 0 = .ok (.array (List.range' m.slots.size args.length)) := by
  let call : CallFrame := ⟨Program.entryId, [.array (List.range' m.slots.size args.length)], none, none⟩
  have found : (m.stack.push (.ofKind (.call call))).callFrame m.stack.depth = .ok call := by
    unfold Stack.callFrame
    rw [Stack.get?_push, if_pos rfl]; rfl
  unfold param
  rw [show (m.started args).stack.callFrame (m.started args).frame = .ok call from found]; rfl

/-! ## The invariant -/

/-- The machine and its program mention slots of the store only. -/
structure Closed (p : Program) (m : Machine) : Prop where
  reachable : Reachable p m
  size : p.slotCount ≤ m.slots.size
  values : m.Holding (Value.Closed m.slots.size)

namespace Closed

theorem ready (p : Program) : Closed p (ready p) where
  reachable := .ready
  size := Nat.le_of_eq (Slots.size_empty _).symm
  values := holding_ready p

theorem refs (h : Closed p m) : ∀ ref ∈ p.refs, ref < m.slots.size :=
  fun _ mem => Nat.lt_of_lt_of_le (Program.lt_slotCount mem) h.size

theorem awaits (h : Closed p m) (valid : p.Valid) : m.Awaits m.slots.size :=
  fun c hc target ht => h.refs target ((h.reachable.wellFormed valid).stacked.returnTarget_mem c hc target ht)

theorem written (h : Closed p m) (valid : p.Valid) (move : m.advance p = ⟨es, .ok m'⟩) :
    m.slots.Written m.slots.size m'.slots :=
  (advance_move move).writes h.values (h.awaits valid) h.refs

theorem advance (h : Closed p m) (valid : p.Valid) (running : m.halted = false) (move : m.advance p = ⟨es, .ok m'⟩) :
    Closed p m' := by
  have size := (h.written valid move).size_eq
  refine ⟨h.reachable.advance running move, size ▸ h.size, ?_⟩
  rw [size]
  exact (advance_move move).holding h.values (Program.makes_closed h.refs)

theorem start {args : List String} (h : Closed p m) (start : m.start args = .ok m') : Closed p m' := by
  have reachable := h.reachable.start start
  obtain ⟨-, rfl⟩ := start_ok start
  refine ⟨reachable, by rw [size_started]; exact Nat.le_add_right_of_le h.size, ?_⟩
  rw [size_started]
  refine (h.values.mono fun v hv => hv.mono (Nat.le_add_right ..)).started (fun _ => nofun) args fun ref mem => ?_
  exact (List.mem_range'_1.1 mem).2

end Closed

/-! ## Histories -/

namespace History

theorem closed (h : History p m starts x) (valid : p.Valid) (closed : Closed p m) : Closed p x := by
  induction h with
  | refl => exact closed
  | start h start ih => exact ih.start start
  | advance h running move ih => exact ih.advance valid running move

/-- The store gets one slot for each argument of each start. -/
theorem size_eq (h : History p m starts x) (valid : p.Valid) (closed : Closed p m) :
    x.slots.size = m.slots.size + (starts.flatMap (·.args)).length := by
  induction h with
  | refl => rfl
  | @start starts x y args h start ih =>
    obtain ⟨-, rfl⟩ := start_ok start
    rw [size_started, ih, List.flatMap_append, List.length_append, List.flatMap_singleton, Nat.add_assoc]
  | advance h running move ih => rw [((h.closed valid closed).written valid move).size_eq, ih]

theorem isSome (h : History p m starts x) (valid : p.Valid) (closed : Closed p m) {ref : Nat}
    (held : (m.slots.get? ref).isSome = true) : (x.slots.get? ref).isSome = true := by
  induction h with
  | refl => exact held
  | @start starts x y args h start ih =>
    obtain ⟨-, rfl⟩ := start_ok start
    have lt : ref < x.slots.size := Nat.lt_of_not_le fun hge => by
      rw [x.slots.get?_eq_none_of_size_le hge] at ih
      cases ih
    rw [get?_started, if_pos lt]
    exact ih
  | advance h running move ih => exact ((h.closed valid closed).written valid move).isSome ih

/-- A slot that a start got was in the store ever since. -/
theorem lt_of_allocates (h : History p m starts x) (valid : p.Valid) (closed : Closed p m) {id : Nat} :
    ∀ s ∈ starts, s.Allocates id → id < x.slots.size := by
  induction h with
  | refl => intro s hs; cases hs
  | @start starts x y args h start ih =>
    intro s hs allocates
    rcases List.mem_append.1 hs with hs | hs
    · have := ih s hs allocates
      obtain ⟨-, rfl⟩ := start_ok start
      rw [size_started]
      omega
    · obtain rfl := List.mem_singleton.1 hs
      exact allocates.2
  | advance h running move ih =>
    rw [((h.closed valid closed).written valid move).size_eq]
    exact ih

end History

/-! ## Closed references -/

/-- In every sequence of starts and transitions the store grows in the starts only, by their arguments, and
everything that is mentioned is one of its slots. -/
theorem references_closed (valid : p.Valid) (h : History p (ready p) starts m) : ReferencesClosed p starts m := by
  have closed := h.closed valid (.ready p)
  constructor
  · rw [h.size_eq valid (.ready p)]
    exact congrArg (· + _) (Slots.size_empty _)
  · intro function pc i at_ ref mem
    exact closed.refs ref (Program.mem_refs at_ mem)
  · exact closed.values
  · -- only `Bind` instructions bind names, and the program mentions their slots
    have built : m.Scoped fun _ ref => ref ∈ p.refs :=
      closed.reachable.scoped fun _ _ _ _ at_ => Program.mem_refs at_ (List.mem_cons_self ..)
    intro f hf name ref bound
    exact closed.refs ref (built.stack.bindings_allowed f hf name ref bound)
  · exact closed.awaits valid
  · intro es m' running move
    exact (closed.written valid move).size_eq
  · intro later m' h ref held
    exact h.isSome valid closed held
  · intro args m' start
    obtain ⟨-, rfl⟩ := start_ok start
    refine ⟨_, param_started m args, List.length_range', fun i id hi => ?_⟩
    obtain ⟨lt, rfl⟩ : i < args.length ∧ m.slots.size + i = id := by
      obtain ⟨lt, rfl⟩ := List.getElem?_eq_some_iff.1 hi
      rw [List.getElem_range', Nat.one_mul]
      exact ⟨by simpa using lt, rfl⟩
    refine ⟨fun mem => ?_, fun s hs allocates => ?_, ?_⟩
    · -- what the program mentions was in the store before this start
      have := closed.refs _ mem
      omega
    · have := h.lt_of_allocates valid (.ready p) s hs allocates
      omega
    · rw [get?_started, if_neg (by omega), Nat.add_sub_cancel_left]

/-- A program that keeps the array of its arguments in slot 0. -/
def keepArguments : Program := ⟨#[⟨"main", 1, #[.assign 0 (.param 0), .ret 0]⟩]⟩

/-- The arguments of the second start are in the slots that follow those of the first. -/
theorem references_closed_secondStart : ∃ starts m m', History keepArguments (ready keepArguments) starts m ∧
    starts.map (·.args) = [["a", "b"]] ∧ m.start ["c"] = .ok m' ∧ m'.param 0 = .ok (.array [3]) ∧
    m'.slots.get? 0 = some (.array [1, 2]) ∧ ReferencesClosed keepArguments starts m := by
  let started := (ready keepArguments).started ["a", "b"]
  have first : History keepArguments (ready keepArguments) [⟨["a", "b"], ready keepArguments, started⟩] started :=
    .start .refl rfl
  have ended := (first.advance rfl rfl).advance rfl rfl
  exact ⟨_, _, _, ended, rfl, rfl, rfl, rfl, references_closed (by decide) ended⟩

end Machine

end SlotVM
