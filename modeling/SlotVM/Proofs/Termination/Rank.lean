/-
The rank of a machine: a number that every transition makes smaller in a program that goes forward. A place in the
code weighs more than all places after it that one instruction can name. The machine carries the place where it is,
and every place that a frame or a running finally block keeps for later; a transition may go back to such a place,
but then nothing keeps it any more.
-/
import SlotVM.Proofs.Cleanup.Origin
import Mathlib.Algebra.Order.BigOperators.Group.List
import Mathlib.Algebra.Order.Ring.Nat

namespace SlotVM

/-! ## Programs that go forward -/

/-- The instruction, at `pc`, calls nothing, does not go on with a loop, and names places after itself only, except
for the start of a loop and the end of a finally block. -/
def Instruction.Forward (pc : Nat) : Instruction → Prop
  | .call _ _ _ => False
  | .exitLoop exit _ => exit = .leave
  | .jump target | .branch _ _ target | .branchConstant _ target => pc < target
  | .pushLoop _ stop => pc < stop
  | .pushTry catches cleanup => (∀ c ∈ catches, pc < c.handler) ∧ ∀ s ∈ cleanup, pc < s.start
  | .assign _ _ | .setField _ _ _ | .setIndex _ _ _ | .setConstant _ _ | .bind _ _ | .pushScope | .popFrame | .nop
  | .ret _ | .throw _ => True

instance (pc : Nat) : (i : Instruction) → Decidable (i.Forward pc)
  | .call _ _ _ => inferInstanceAs (Decidable False)
  | .exitLoop exit _ => inferInstanceAs (Decidable (exit = .leave))
  | .jump target | .branch _ _ target | .branchConstant _ target => inferInstanceAs (Decidable (pc < target))
  | .pushLoop _ stop => inferInstanceAs (Decidable (pc < stop))
  | .pushTry catches cleanup =>
    inferInstanceAs (Decidable ((∀ c ∈ catches, pc < c.handler) ∧ ∀ s ∈ cleanup, pc < s.start))
  | .assign _ _ | .setField _ _ _ | .setIndex _ _ _ | .setConstant _ _ | .bind _ _ | .pushScope | .popFrame | .nop
  | .ret _ | .throw _ => inferInstanceAs (Decidable True)

/-- All instructions of the function go forward. -/
def FunctionDef.Forward (f : FunctionDef) : Prop := ∀ (pc : Nat) (h : pc < f.code.size), f.code[pc].Forward pc

instance (f : FunctionDef) : Decidable f.Forward :=
  inferInstanceAs (Decidable (∀ (pc : Nat) (h : pc < f.code.size), f.code[pc].Forward pc))

/-- The entry function goes forward. -/
def Program.Forward (p : Program) : Prop := ∀ f ∈ p.entry?, f.Forward

instance (p : Program) : Decidable p.Forward := inferInstanceAs (Decidable (∀ f ∈ p.entry?, f.Forward))

/-! ## Places that are kept for later -/

/-- The places where a frame lets a run go on. A loop may also be begun again, but not going forward. -/
def FrameKind.places : FrameKind → List Nat
  | .scope | .call _ => []
  | .loop _ stop => [stop]
  | .attempt catches cleanup => (cleanup.map (·.start)).toList ++ catches.map (·.handler)

/-- The places where a transfer that was interrupted at `resume` lets a run go on, besides those of frames. -/
def Transfer.places (resume : Nat) : Transfer → List Nat
  | .pop => [resume + 1]
  | .unwind _ catches => catches.map (·.handler)
  | .ret _ _ | .exitLoop _ _ _ => []

/-- The sum of the weights of some places. -/
def total (weight : Nat → Nat) (places : List Nat) : Nat := (places.map weight).sum

/-- What a frame adds to the rank: one for itself, and its places. -/
def FrameKind.rank (weight : Nat → Nat) (k : FrameKind) : Nat := 1 + total weight k.places

/-- What a running finally block adds to the rank. -/
def Region.rank (weight : Nat → Nat) (r : Region) : Nat := 1 + total weight (r.transfer.places r.resume)

namespace Machine

/-- The rank of all that the machine keeps for later. -/
def held (weight : Nat → Nat) (m : Machine) : Nat :=
  (m.stack.kinds.map (FrameKind.rank weight)).sum + (m.regions.map (Region.rank weight)).sum

/-- The rank of the machine. While a handler is searched, it is nowhere. -/
def rank (weight : Nat → Nat) (m : Machine) : Nat :=
  (if m.pending.isActive then 1 else weight m.pc) + m.held weight

end Machine

variable {w : Nat → Nat} {places : List Nat} {pc : Nat}

theorem le_total {place : Nat} (h : place ∈ places) : w place ≤ total w places :=
  List.le_sum_of_mem (List.mem_map_of_mem h)

theorem total_append (a b : List Nat) : total w (a ++ b) = total w a + total w b := by
  rw [total, List.map_append, List.sum_append]; rfl

theorem total_le {bound : Nat} (h : ∀ place ∈ places, w place ≤ bound) : total w places ≤ places.length * bound := by
  have := List.sum_le_card_nsmul (places.map w) bound (List.forall_mem_map.2 h)
  rwa [List.length_map] at this

/-- Whether the transfer, if it leaves loops, does not go on with the last one. -/
def Transfer.Leaves : Transfer → Prop
  | .exitLoop exit _ _ => exit = .leave
  | .pop | .unwind _ _ | .ret _ _ => True

theorem Transfer.Leaves.past {t : Transfer} (h : t.Leaves) (f : Frame) : (t.past f).Leaves := by
  cases t with
  | unwind scope catches => rw [past_unwind]; trivial
  | exitLoop exit depth remaining => cases remaining <;> cases hf : f.kind <;> simpa [Transfer.past, hf, Leaves] using h
  | pop | ret => trivial

/-- The places that a transfer keeps when it has taken off a frame are places of the frame, except for the beginning
of a finally block, or its own. -/
theorem Transfer.total_past (w : Nat → Nat) (pc : Nat) (t : Transfer) (f : Frame) :
    total w ((t.past f).places pc) ≤ total w (f.kind.catches.map (·.handler)) + total w (t.places pc) := by
  cases t with
  | unwind scope catches =>
    rw [past_unwind]
    exact Nat.le_add_right _ _
  | exitLoop exit depth remaining =>
    cases remaining <;> cases hf : f.kind <;> simp [past, hf, places, total]
  | pop | ret => exact Nat.le_add_left _ _

theorem FrameKind.catches_le_rank (k : FrameKind) : total w (k.catches.map (·.handler)) + 1 ≤ k.rank w := by
  cases k with
  | attempt catches cleanup =>
    rw [FrameKind.rank, places, total_append, Nat.add_comm]
    exact Nat.add_le_add_left (Nat.le_add_left _ _) 1
  | scope | call | loop => exact Nat.le_add_right 1 _

namespace Machine

variable {p : Program} {m m' : Machine} {es : List Event} {f : Frame} {rest : Stack}

/-! ## The rank after a transfer -/

theorem held_pop (top : m.stack = rest.push f) : m.held w = f.kind.rank w + { m with stack := rest }.held w := by
  rw [held, held, top, Stack.kinds_push, List.map_cons, List.sum_cons, Nat.add_assoc]

theorem held_push (m : Machine) (f : Frame) : { m with stack := m.stack.push f }.held w = f.kind.rank w + m.held w :=
  held_pop (m := { m with stack := m.stack.push f }) rfl

theorem held_goBack (m : Machine) (k : Option Continuation) : (m.goBack k).held w = m.held w := by
  cases k <;> rfl

theorem held_region {r : Region} {outer : List Region} (regions : m.regions = r :: outer) :
    m.held w = r.rank w + { m with regions := outer }.held w := by
  rw [held, held, regions, List.map_cons, List.sum_cons]
  dsimp only
  omega

theorem rank_settled (h : m.pending.isActive = false) : m.rank w = w m.pc + m.held w := by
  rw [rank, h, if_neg Bool.false_ne_true]

theorem rank_active (h : m.pending.isActive = true) : m.rank w = 1 + m.held w := by
  rw [rank, h, if_pos rfl]

theorem rank_entered (m : Machine) (range : Span) (t : Transfer) :
    (m.entered range t).rank w = w range.start + (1 + total w (t.places m.pc)) + m.held w := by
  have settled : (m.entered range t).pending.isActive = false := by
    show m.pending.settle.isActive = false
    cases m.pending <;> rfl
  rw [rank_settled settled, held_region (m := m.entered range t) rfl, Nat.add_assoc]
  rfl

theorem rank_handling (m : Machine) (scope : Scope) (clause : CatchClause) (error : Value) :
    (m.handling scope clause error).rank w = w clause.handler + 1 + m.held w := by
  rw [rank_settled rfl, Nat.add_assoc]
  exact congrArg (w clause.handler + ·) (held_push m _)

/-- When a try frame is taken off for its finally block, the block begins at a place of the frame. -/
theorem rank_cleanup {t : Transfer} {catches : List CatchClause} {range : Span} (top : m.stack = rest.push f)
    (kind : f.kind = .attempt catches (some range)) :
    ({ m with stack := rest }.entered range (t.past f)).rank w ≤ m.held w + total w (t.places m.pc) := by
  have past := t.total_past w m.pc f
  have frame : f.kind.rank w = 1 + (w range.start + total w (f.kind.catches.map (·.handler))) := by
    rw [kind]; rfl
  rw [rank_entered, held_pop top, frame]
  dsimp only
  omega

/-- The only function frame is that of the entry function, at the bottom. -/
def OnlyEntry (m : Machine) : Prop :=
  ∀ above c below, m.stack.kinds = above ++ .call c :: below → c.caller = none ∧ below = []

theorem OnlyEntry.pop (h : m.OnlyEntry) (top : m.stack = rest.push f) : { m with stack := rest }.OnlyEntry := by
  intro above c below split
  refine h (f.kind :: above) c below ?_
  rw [top, Stack.kinds_push]
  exact congrArg (f.kind :: ·) split

theorem OnlyEntry.top (h : m.OnlyEntry) (top : m.stack = rest.push f) {c : CallFrame} (kind : f.kind = .call c) :
    c.caller = none ∧ rest.kinds = [] := by
  refine h [] c rest.kinds ?_
  rw [top, Stack.kinds_push, kind]; rfl

/-- A transfer goes on at one of its own places or one of a frame that it takes off. If it seeks, it takes a frame
off, at least. -/
theorem Carries.rank_le {t : Transfer} (go : m.Carries t es m') (only : m.OnlyEntry) (leaves : t.Leaves)
    (active : m.pending.isActive = t.isUnwind) :
    m'.halted = true ∨ m'.rank w ≤ m.held w + total w (t.places m.pc) + 1 ∧
      (m.Seeks t → 0 < m.available → m'.rank w ≤ m.held w + total w (t.places m.pc)) := by
  -- on the frames that the transfer takes off; each pays for the place where the run goes on if it goes on there
  induction go with
  | @popped m =>
    refine .inr ⟨?_, False.elim⟩
    rw [rank_settled (m := m.next) active]
    show w (m.pc + 1) + m.held w ≤ m.held w + (w (m.pc + 1) + 0) + 1
    omega
  | @caught m scope catches clause error h =>
    have : w clause.handler ≤ total w (catches.map (·.handler)) := le_total (List.mem_map_of_mem (handler?_mem h))
    refine .inr ⟨?_, fun seeks => ?_⟩
    · rw [rank_handling]
      show _ ≤ m.held w + total w (catches.map (·.handler)) + 1
      omega
    · rw [show m.handler? catches = none from seeks] at h
      cases h
  | uncaught h empty =>
    refine .inr ⟨?_, fun _ room => by omega⟩
    rw [rank_active active]
    omega
  | @cleanup m t catches range f rest seeks room top kind =>
    have le := rank_cleanup (w := w) (t := t) top kind
    exact .inr ⟨Nat.le_succ_of_le le, fun _ _ => le⟩
  | @pass m t es m' f rest seeks room top passes go ih =>
    refine (ih (only.pop top) (leaves.past f) (active.trans (t.isUnwind_past f).symm)).imp_right fun ⟨le, _⟩ => ?_
    have past := t.total_past w m.pc f
    have frame := f.kind.catches_le_rank (w := w)
    have le : m'.rank w ≤ m.held w + total w (t.places m.pc) := by
      rw [held_pop top]
      dsimp only at le
      omega
    exact ⟨Nat.le_succ_of_le le, fun _ _ => le⟩
  | @abort m scope catches es m' f rest call seeks room top kind go ih =>
    have only' : ({ m with stack := rest }.goBack call.caller).OnlyEntry := by
      intro above c below split
      rw [goBack_stack] at split
      exact only.pop top above c below split
    have active' : ({ m with stack := rest }.goBack call.caller).pending.isActive = true := by
      cases call.caller <;> exact active
    refine (ih only' trivial active').imp_right fun ⟨le, _⟩ => ?_
    rw [held_goBack, show total w ((Transfer.unwind f.scope []).places _) = 0 from rfl] at le
    have frame := f.kind.catches_le_rank (w := w)
    have le : m'.rank w ≤ m.held w + total w ((Transfer.unwind scope catches).places m.pc) := by
      rw [held_pop top]
      omega
    exact ⟨Nat.le_succ_of_le le, fun _ _ => le⟩
  | @left m exit depth start stop f rest room top kind =>
    obtain rfl : exit = .leave := leaves
    have frame : f.kind.rank w = 1 + (w stop + 0) := by rw [kind]; rfl
    have le : { m with stack := rest, pc := LoopExit.leave.target start stop }.rank w ≤ m.held w := by
      rw [rank_settled (m := { m with stack := rest, pc := _ }) active, held_pop top, frame]
      show w stop + { m with stack := rest }.held w ≤ _
      omega
    exact .inr ⟨Nat.le_succ_of_le le, fun _ _ => le⟩
  | returned room top kind caller =>
    -- the entry function has no caller
    rw [(only.top top kind).1] at caller
    cases caller
  | ended room top kind caller => exact .inl (Stack.kinds_eq_nil_iff.1 (only.top top kind).2)

end Machine

/-- A pushed frame keeps places after the instruction. -/
theorem Instruction.Forward.lt_places {i : Instruction} {kind : FrameKind} (h : i.Forward pc)
    (frame : i.frame? = some kind) : ∀ place ∈ kind.places, pc < place := by
  cases i with
  | pushScope => cases frame; exact nofun
  | pushLoop start stop => cases frame; exact List.forall_mem_singleton.2 h
  | pushTry catches cleanup =>
    cases frame
    intro place mem
    rcases List.mem_append.1 mem with mem | mem
    · obtain ⟨range, hr, rfl⟩ := Option.map_eq_some_iff.1 (Option.mem_toList.1 mem)
      exact h.2 range hr
    · obtain ⟨clause, hc, rfl⟩ := List.mem_map.1 mem
      exact h.1 clause hc
  | _ => cases frame

/-! ## The weights of a function -/

/-- One more than the most places that an instruction of the function can add to those that are kept, with the frame
that keeps them and the place after the instruction. -/
def FunctionDef.base (f : FunctionDef) : Nat :=
  (f.code.toList.map fun i => (i.frame?.elim 0 fun k => k.places.length)).sum + 3

/-- The weight of a place: each counts as much as `base` of the places after it. -/
def FunctionDef.weight (f : FunctionDef) (place : Nat) : Nat := f.base ^ (f.code.size + 1 - place)

namespace FunctionDef

variable {f : FunctionDef} {i : Instruction} {kind : FrameKind} {target : Nat}

theorem one_lt_base (f : FunctionDef) : 1 < f.base := by
  unfold base; omega

theorem one_lt_weight (h : pc ≤ f.code.size) : 1 < f.weight pc := Nat.one_lt_pow (by omega) f.one_lt_base

theorem weight_lt (h : pc < f.code.size) (lt : pc < target) : f.weight target < f.weight pc :=
  (Nat.pow_lt_pow_iff_right f.one_lt_base).2 (by omega)

theorem weight_le {a b : Nat} (le : a ≤ b) : f.weight b ≤ f.weight a :=
  Nat.pow_le_pow_right (Nat.lt_trans Nat.zero_lt_one f.one_lt_base) (by omega)

theorem Forward.at (forward : f.Forward) (code : f.code[pc]? = some i) : i.Forward pc := by
  obtain ⟨lt, rfl⟩ := Array.getElem?_eq_some_iff.1 code
  exact forward pc lt

theorem lt_size (code : f.code[pc]? = some i) : pc < f.code.size := (Array.getElem?_eq_some_iff.1 code).1

/-- What a pushed frame keeps weighs less than the place where it is pushed, also with the place after that. -/
theorem weight_push (code : f.code[pc]? = some i) (forward : i.Forward pc) (frame : i.frame? = some kind) :
    f.weight (pc + 1) + kind.rank f.weight < f.weight pc := by
  have le : total f.weight kind.places ≤ kind.places.length * f.weight (pc + 1) :=
    total_le fun place mem => weight_le (forward.lt_places frame place mem)
  have pos : 1 ≤ f.weight (pc + 1) := Nat.one_le_pow _ _ (Nat.lt_trans Nat.zero_lt_one f.one_lt_base)
  have few : kind.places.length + 2 < f.base := by
    have mem : kind.places.length ∈ f.code.toList.map fun i => i.frame?.elim 0 fun k => k.places.length :=
      List.mem_map.2 ⟨i, Array.mem_toList_iff.2 (Array.mem_of_getElem? code), by rw [frame]; rfl⟩
    have := List.le_sum_of_mem mem
    unfold base
    omega
  have step : f.weight pc = f.base * f.weight (pc + 1) := by
    have lt := lt_size code
    rw [weight, weight, show f.code.size + 1 - pc = f.code.size + 1 - (pc + 1) + 1 by omega, Nat.pow_succ, Nat.mul_comm]
  calc f.weight (pc + 1) + kind.rank f.weight
      ≤ f.weight (pc + 1) + (1 + kind.places.length * f.weight (pc + 1)) :=
        Nat.add_le_add_left (Nat.add_le_add_left le 1) _
    _ ≤ (kind.places.length + 2) * f.weight (pc + 1) := by rw [Nat.add_mul]; omega
    _ < f.base * f.weight (pc + 1) := Nat.mul_lt_mul_of_pos_right few pos
    _ = f.weight pc := step.symm

end FunctionDef

/-! ## Transitions -/

namespace Machine

variable {p : Program} {m m' : Machine} {es : List Event} {f : FunctionDef}

theorem rank_lt_of_held (settled : m.pending.isActive = false) (settled' : m'.pending.isActive = false)
    (lt : w m'.pc < w m.pc) (held : m'.held w ≤ m.held w) : m'.rank w < m.rank w := by
  rw [rank_settled settled, rank_settled settled']
  exact Nat.add_lt_add_of_lt_of_le lt held

theorem rank_throw (settled : m.pending.isActive = false) (lt : 1 < w m.pc) (v : Value) : (m.throw v).rank w < m.rank w := by
  rw [rank_settled settled, rank_active (m := m.throw v) rfl]
  exact Nat.add_lt_add_right lt _

/-- A return, or the leaving of a loop, gives up the place where the machine is. -/
theorem Carries.rank_lt {t : Transfer} (go : m.Carries t es m') (only : m.OnlyEntry) (leaves : t.Leaves)
    (plain : t.isUnwind = false) (settled : m.pending.isActive = false) (keeps : t.places m.pc = [])
    (lt : 1 < w m.pc) : m'.halted = true ∨ m'.rank w < m.rank w := by
  refine (go.rank_le (w := w) only leaves (settled.trans plain.symm)).imp_right fun ⟨le, _⟩ => ?_
  rw [keeps, show total w [] = 0 from rfl] at le
  rw [rank_settled settled]
  omega

theorem Performs.rank_lt {i : Instruction} (go : m.Performs p i es m') (code : f.code[m.pc]? = some i)
    (forward : i.Forward m.pc) (settled : m.pending.isActive = false) (only : m.OnlyEntry) :
    m'.halted = true ∨ m'.rank f.weight < m.rank f.weight := by
  have lt := FunctionDef.lt_size code
  have here : 1 < f.weight m.pc := FunctionDef.one_lt_weight (Nat.le_of_lt lt)
  have goes {pc : Nat} (h : m.pc < pc) : f.weight pc < f.weight m.pc := FunctionDef.weight_lt lt h
  have next : f.weight (m.pc + 1) < f.weight m.pc := goes (Nat.lt_succ_self m.pc)
  cases go with
  | assign | setField | setIndex | setConstant | nop =>
    exact .inr (rank_lt_of_held settled settled next (Nat.le_refl _))
  | raise | throw => exact .inr (rank_throw settled here _)
  | call => cases forward
  | @bind name ref stack hb =>
    refine .inr (rank_lt_of_held settled settled next (Nat.le_of_eq ?_))
    show (stack.kinds.map _).sum + _ = (m.stack.kinds.map _).sum + _
    rw [Stack.bind_kinds hb]; rfl
  | @push i kind hk =>
    -- the frame and the next place come instead of this place
    right
    rw [rank_settled settled, rank_settled (m := (m.pushFrame kind).next) settled]
    have := FunctionDef.weight_push code forward hk
    have pushed : (m.pushFrame kind).next.held f.weight = kind.rank f.weight + m.held f.weight :=
      held_push m (.ofKind kind)
    rw [pushed]
    show f.weight (m.pc + 1) + _ < _
    omega
  | @pop f' rest room top kind =>
    refine .inr (rank_lt_of_held settled settled next ?_)
    rw [held_pop top]
    exact Nat.le_add_left _ _
  | @popCleanup catches range f' rest room top kind =>
    -- the block begins at a place of the frame, and keeps the next place for its end
    have le := rank_cleanup (w := f.weight) (t := .pop) top kind
    right
    rw [rank_settled settled]
    refine Nat.lt_of_le_of_lt le ?_
    show m.held f.weight + (f.weight (m.pc + 1) + 0) < _
    omega
  | jump => exact .inr (rank_lt_of_held settled settled (goes forward) (Nat.le_refl _))
  | branch | branchConstant =>
    right
    split
    · exact rank_lt_of_held settled settled (goes forward) (Nat.le_refl _)
    · exact rank_lt_of_held settled settled next (Nat.le_refl _)
  | ret hv go => exact go.rank_lt (w := f.weight) only trivial rfl settled rfl here
  | exitLoop go => exact go.rank_lt only forward rfl settled rfl here

/-- What a machine of a program that goes forward is like: it runs the entry function `f` only, and its finally blocks
have interrupted no `Continue`. -/
structure GoesForward (p : Program) (f : FunctionDef) (m : Machine) : Prop where
  function : p.functions[m.function]? = some f
  only : m.OnlyEntry
  pc : m.pc ≤ f.code.size
  leaves : ∀ r ∈ m.regions, r.transfer.Leaves
  active : ∀ r ∈ m.regions, r.pending.isActive = r.transfer.isUnwind

theorem GoesForward.region (h : m.GoesForward p f) {r : Region} {outer : List Region} (regions : m.regions = r :: outer) :
    r.transfer.Leaves ∧ r.pending.isActive = r.transfer.isUnwind :=
  ⟨h.leaves r (regions ▸ List.mem_cons_self ..), h.active r (regions ▸ List.mem_cons_self ..)⟩

/-- At the end of a finally block its places are given up. -/
theorem Ends.held_eq {r : Region} {outer : List Region} {exit : RegionExit} (ends : m.Ends r outer exit m') :
    m.held w = r.rank w + m'.held w := by
  cases ends with
  | completed regions | threw regions => exact held_region regions

theorem Ends.rank_lt {r : Region} {outer : List Region} (ends : m.Ends r outer .threw m') :
    m'.pending.isActive = true ∧ m'.rank w < m.rank w := by
  have held := ends.held_eq (w := w)
  have region : r.rank w = 1 + total w (r.transfer.places r.resume) := rfl
  cases ends with
  | threw regions active =>
    refine ⟨active, ?_⟩
    rw [rank_active active, rank_active (m := m.escaped r outer) active]
    omega

theorem floor_lt_of_search (running : m.halted = false)
    (room : ∀ r outer, m.regions = r :: outer → r.floor < m.stack.depth) : m.floor < m.stack.depth := by
  unfold floor
  cases hr : m.regions with
  | cons r outer => exact room r outer hr
  | nil =>
    refine Nat.pos_of_ne_zero fun empty => ?_
    have : m.halted = true := Stack.kinds_eq_nil_iff.1 (List.length_eq_zero_iff.1 (by rw [Stack.length_kinds, empty]))
    rw [running] at this
    cases this

/-- Every transition makes the rank smaller, unless it ends the run. -/
theorem Move.rank_lt (move : m.Move p es m') (h : m.GoesForward p f) (forward : f.Forward) (running : m.halted = false) :
    m'.halted = true ∨ m'.rank f.weight < m.rank f.weight := by
  have here : 1 < f.weight m.pc := FunctionDef.one_lt_weight h.pc
  cases move with
  | execute runs function code go =>
    rw [h.function] at function
    cases function
    exact go.rank_lt code (forward.at code) runs.settled h.only
  | fallOff runs function code go => exact go.rank_lt (w := f.weight) h.only trivial rfl runs.settled rfl here
  | search active room go =>
    have room := Nat.sub_pos_of_lt (floor_lt_of_search running room)
    refine (go.rank_le (w := f.weight) h.only trivial active).imp_right fun ⟨_, le⟩ => ?_
    have le := le (handler?_nil m) room
    rw [rank_active active]
    exact Nat.lt_of_le_of_lt le (Nat.lt_add_of_pos_left Nat.zero_lt_one)
  | @complete r outer m₁ es m' ends go =>
    -- the interrupted transfer goes on with the places that the block has kept for it
    have held := ends.held_eq (w := f.weight)
    cases ends with
    | completed regions settled =>
      obtain ⟨leaves, active⟩ := h.region regions
      refine (go.rank_le (w := f.weight) h.only leaves active).imp_right fun ⟨le, _⟩ => ?_
      have region : r.rank f.weight = 1 + total f.weight (r.transfer.places (m.restored r outer).pc) := rfl
      rw [rank_settled settled]
      omega
  | @abandonSearch r outer m₁ scope catches es m' ends transfer go =>
    obtain ⟨active, lt⟩ := ends.rank_lt (w := f.weight)
    have only : m₁.OnlyEntry := fun above c below split => h.only above c below (ends.stack_eq ▸ split)
    refine (go.rank_le (w := f.weight) only trivial active).imp_right fun ⟨le, _⟩ => ?_
    rw [show total f.weight ((Transfer.unwind .empty []).places _) = 0 from rfl] at le
    rw [rank_active active] at lt
    omega
  | abandonReturn ends transfer => exact .inr ends.rank_lt.2
  | abandon ends transfer => exact .inr ends.rank_lt.2

end Machine

end SlotVM
