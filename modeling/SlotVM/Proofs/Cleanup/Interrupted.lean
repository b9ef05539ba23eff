/-
Transfers of control that finally blocks interrupt. The search for a handler, a return and the leaving of
loops begin one block after the other, and go on each time that a block has come to its end. `Continues`
follows a transfer through its blocks; `CleanupsComplete` says that all of them come to their ends.
-/
import SlotVM.Proofs.Cleanup.Isolation

namespace SlotVM.Machine

variable {p : Program} {m x x' y : Machine} {r : Region} {outer : List Region}

/-! ## Blocks that come to their ends -/

/-- The block that begins in `e` is at its end in `x`, without having thrown. -/
structure Completes (p : Program) (e : Machine) (range : Span) (t : Transfer) (x : Machine) : Prop where
  during : During p (e.region range t) e.regions (e.entered range t) x
  ended : ∃ y, x.Ends (e.region range t) e.regions .completed y

theorem During.head (h : During p r outer m x) : x = m ∨ ∃ es y, (∀ exit z, ¬ m.Ends r outer exit z) ∧
    m.advance p = ⟨es, .ok y⟩ ∧ During p r outer y x := by
  induction h with
  | begin => exact .inl rfl
  | step h inside move ih =>
    right
    rcases ih with rfl | ⟨es, y, inside', move', rest⟩
    · exact ⟨_, _, inside, move, .begin⟩
    · exact ⟨es, y, inside', move', rest.step inside move⟩

/-- Of two machines inside of a block, one comes before the other. -/
theorem During.linear (h : During p r outer m x) (h' : During p r outer m x') :
    During p r outer x x' ∨ During p r outer x' x := by
  induction h with
  | begin => exact .inl h'
  | @step x y es h inside move ih =>
    rcases ih with ahead | behind
    · rcases ahead.head with rfl | ⟨es', y', -, move', rest⟩
      · exact .inr (.step .begin inside move)
      · rw [move] at move'
        cases move'
        exact .inl rest
    · exact .inr (behind.step inside move)

theorem During.eq_of_ends {exit : RegionExit} {z : Machine} (h : During p r outer x x')
    (ends : x.Ends r outer exit z) : x' = x := by
  rcases h.head with rfl | ⟨-, -, inside, -⟩
  · rfl
  · exact absurd ends (inside exit z)

/-- A block comes to its end at one moment only. -/
theorem Completes.unique {e : Machine} {range : Span} {t : Transfer} (h : Completes p e range t x)
    (h' : Completes p e range t x') : x' = x := by
  obtain ⟨z, ends⟩ := h.ended
  obtain ⟨z', ends'⟩ := h'.ended
  rcases h.during.linear h'.during with later | earlier
  · exact later.eq_of_ends ends
  · exact (earlier.eq_of_ends ends').symm

/-- The machine `z`, which a block that began in `e` goes back to, is in the place of `e`. -/
structure Restores (e z : Machine) : Prop where
  kinds : z.stack.kinds = e.stack.kinds
  function : z.function = e.function
  frame : z.frame = e.frame
  pc : z.pc = e.pc
  pending : z.pending = e.pending
  regions : z.regions = e.regions

/-- At the end of a block the machine goes back to the place where the block began. -/
theorem Completes.restored {e : Machine} {range : Span} {t : Transfer} (h : Completes p e range t x)
    (valid : p.Valid) (reach : Reachable p (e.entered range t)) :
    Reachable p x ∧ x.halted = false ∧ ∃ z, x.Ends (e.region range t) e.regions .completed z ∧
      z.WellFormed p ∧ z.stack.kinds ≠ [] ∧ Restores e z := by
  obtain ⟨hx, hr, hk⟩ := h.during.spec valid reach List.suffix_rfl rfl
  have wf := hx.wellFormed valid
  obtain ⟨z, ends⟩ := h.ended
  obtain ⟨function, frame, pc⟩ := ends.registers wf
  have hlen : e.stack.kinds.length = x.stack.kinds.length := by
    rw [Stack.length_kinds, Stack.length_kinds, ends.depth_eq wf]; rfl
  have kinds : e.stack.kinds = x.stack.kinds := hk.eq_of_length hlen
  refine ⟨hx, wf.running hr, z, ends, ends.wellFormed wf, (ends.top wf).ne_nil, ?_, function, frame, pc, ?_,
    ends.regions_eq⟩
  · rw [ends.stack_eq, kinds]
  · cases ends; rfl

/-- At the end of a block its transfer is taken up again, in the place where the block began. -/
theorem Completes.resumes {e : Machine} {range : Span} {t : Transfer} (h : Completes p e range t x)
    (valid : p.Valid) (reach : Reachable p (e.entered range t)) :
    Reachable p x ∧ x.halted = false ∧
      ∃ z, x.advance p = z.resume t ∧ z.WellFormed p ∧ z.stack.kinds ≠ [] ∧ Restores e z := by
  obtain ⟨hx, running, z, ends, wf, owned, back⟩ := h.restored valid reach
  exact ⟨hx, running, z, ends.advance_completed, wf, owned, back⟩

/-! ## The block that a transition begins -/

theorem entered_inj {e e' : Machine} {range range' : Span} {t t' : Transfer}
    (h : e.entered range t = e'.entered range' t') : e = e' ∧ range = range' ∧ t = t' := by
  obtain ⟨slots, constants, stack, function, frame, pc, returned, pending, regions⟩ := e
  obtain ⟨slots', constants', stack', function', frame', pc', returned', pending', regions'⟩ := e'
  simp only [entered, region, Machine.mk.injEq, List.cons.injEq, Region.mk.injEq] at h
  grind

/-- What a transition that begins a block ends with. -/
theorem Begins.move {e : Machine} {range : Span} {t : Transfer} {es : List Event} (h : Begins p x e range t)
    (move : x.advance p = ⟨es, .ok y⟩) :
    .cleanupBegan e.function range e.stack.depth ∈ es ∧ y = e.entered range t := by
  obtain ⟨before, begins⟩ := h
  rw [move, Transition.mk.injEq] at begins
  obtain ⟨rfl, hy⟩ := begins
  exact ⟨List.mem_append_right _ (List.mem_cons_self ..), Except.ok.inj hy⟩

/-- A transition begins one block at most. -/
theorem Begins.unique {e e' : Machine} {range range' : Span} {t t' : Transfer} (h : Begins p x e range t)
    (h' : Begins p x e' range' t') : e = e' ∧ range = range' ∧ t = t' := by
  obtain ⟨before, move⟩ := h
  obtain ⟨-, heq⟩ := h'.move move
  exact entered_inj heq

/-! ## Transfers through their blocks -/

/-- The machines whose next transitions carry on the transfer that the transition of `m` begins: `m`, and
those in which a block that interrupts the transfer is at its end. The blocks that came before are given
with the functions that they belong to, the first one first. -/
inductive Continues (p : Program) (m : Machine) : List (Nat × Span) → Machine → Prop
  | begin : Continues p m [] m
  | block {blocks x e range t y} (h : Continues p m blocks x) (begins : Begins p x e range t)
      (completes : Completes p e range t y) : Continues p m (blocks ++ [(e.function, range)]) y

/-- Every finally block that interrupts the transfer which the transition of `m` begins comes to its end. -/
def CleanupsComplete (p : Program) (m : Machine) : Prop :=
  ∀ ⦃blocks x e range t⦄, Continues p m blocks x → Begins p x e range t → ∃ y, Completes p e range t y

theorem Continues.reachable {blocks : List (Nat × Span)} (h : Continues p m blocks x) (valid : p.Valid)
    (reach : Reachable p m) (running : m.halted = false) : Reachable p x ∧ x.halted = false := by
  induction h with
  | begin => exact ⟨reach, running⟩
  | block h begins completes ih =>
    obtain ⟨before, move⟩ := begins
    obtain ⟨hy, running, -⟩ := completes.resumes valid (ih.1.advance ih.2 move)
    exact ⟨hy, running⟩

/-- Whatever continues `m` is `m`, or continues the machine at the end of the first block. -/
theorem Continues.head {blocks : List (Nat × Span)} {e : Machine} {range : Span} {t : Transfer}
    (h : Continues p m blocks x) (begins : Begins p m e range t) (completes : Completes p e range t y) :
    x = m ∨ ∃ rest, Continues p y rest x := by
  induction h with
  | begin => exact .inl rfl
  | block h begins' completes' ih =>
    right
    rcases ih with rfl | ⟨rest, ih⟩
    · obtain ⟨rfl, rfl, rfl⟩ := begins.unique begins'
      exact ⟨[], completes.unique completes' ▸ .begin⟩
    · exact ⟨_, ih.block begins' completes'⟩

/-- A transfer that begins no block completes. -/
theorem CleanupsComplete.none (h : ∀ e range t, ¬ Begins p m e range t) : CleanupsComplete p m := by
  have stays : ∀ {blocks x}, Continues p m blocks x → x = m := by
    intro blocks x continues
    induction continues with
    | begin => rfl
    | block _ begins _ ih => exact absurd (ih ▸ begins) (h _ _ _)
  intro blocks x e range t continues begins
  exact absurd (stays continues ▸ begins) (h e range t)

/-- The blocks of a transfer complete if the first one does and those after it do. -/
theorem CleanupsComplete.block {e : Machine} {range : Span} {t : Transfer} (begins : Begins p m e range t)
    (completes : Completes p e range t y) (rest : CleanupsComplete p y) : CleanupsComplete p m := by
  intro blocks x e' range' t' continues begins'
  rcases continues.head begins completes with rfl | ⟨blocks', continues'⟩
  · obtain ⟨rfl, rfl, rfl⟩ := begins.unique begins'
    exact ⟨y, completes⟩
  · exact rest continues' begins'

end SlotVM.Machine
