/-
Exits from loops, to the end of a loop or to its start. They go down to the loop that is meant, among those of the
running function above the floor, and run the finally blocks of the try frames on the way. `exits_loops`: the stack
is then that of just before the loop was pushed, whatever scopes, inner loops and try constructs lay on it.
-/
import SlotVM.Proofs.Control.CallReturn
import SlotVM.Proofs.Control.Descent

namespace SlotVM.Machine

open Transition

variable {p : Program} {m x y z : Machine} {es : List Event} {exit : LoopExit} {depth remaining i start stop : Nat}
  {blocks : List (Nat × Span)}

/-! ## Where loops come from -/

theorem kinds_suffix {f : Frame} {rest : Stack} (top : m.stack = rest.push f) : rest.kinds <:+ m.stack.kinds := by
  rw [kinds_top top]
  exact List.suffix_cons _ _

/-- A transfer takes frames off. Only at a handler it puts one back. -/
theorem Carries.kinds {t : Transfer} (go : m.Carries t es y) : y.stack.kinds <:+ m.stack.kinds ∨
    ∃ below, below <:+ m.stack.kinds ∧ y.stack.kinds = .attempt [] none :: below := by
  induction go with
  | popped | uncaught => exact .inl List.suffix_rfl
  | caught => exact .inr ⟨_, List.suffix_rfl, rfl⟩
  | cleanup seeks room top | left room top | returned room top | ended room top => exact .inl (kinds_suffix top)
  | pass seeks room top passes go ih =>
    exact ih.imp (·.trans (kinds_suffix top)) fun ⟨below, h, hy⟩ => ⟨below, h.trans (kinds_suffix top), hy⟩
  | abort seeks room top kind go ih =>
    rw [goBack_stack] at ih
    exact ih.imp (·.trans (kinds_suffix top)) fun ⟨below, h, hy⟩ => ⟨below, h.trans (kinds_suffix top), hy⟩

/-- What a transition does to the kinds of the frames: it takes some off, and pushes one at most. -/
inductive Shifts (p : Program) (m y : Machine) : Prop
  | pops (kinds : y.stack.kinds <:+ m.stack.kinds)
  | pushes {k : FrameKind} {l : List FrameKind} (below : l <:+ m.stack.kinds) (kinds : y.stack.kinds = k :: l)
      (plain : k.isLoop = false)
  | pushesLoop {start stop : Nat} (runs : m.Runs) (code : p.At m.function m.pc (.pushLoop start stop))
      (kinds : y.stack.kinds = .loop start stop :: m.stack.kinds)

theorem Carries.shifts {t : Transfer} (go : z.Carries t es y) (kinds : z.stack.kinds = m.stack.kinds) :
    Shifts p m y := by
  rcases go.kinds with h | ⟨below, h, hy⟩
  · exact .pops (kinds ▸ h)
  · exact .pushes (kinds ▸ h) hy rfl

theorem Performs.shifts {instruction : Instruction} (go : m.Performs p instruction es y) (runs : m.Runs)
    (code : p.At m.function m.pc instruction) : Shifts p m y := by
  cases go with
  | call => exact .pushes List.suffix_rfl rfl rfl
  | bind h => exact .pops (Stack.bind_kinds h ▸ List.suffix_rfl)
  | push h =>
    cases instruction <;> cases h
    · exact .pushes List.suffix_rfl rfl rfl
    · exact .pushesLoop runs code rfl
    · exact .pushes List.suffix_rfl rfl rfl
  | pop room top | popCleanup room top => exact .pops (kinds_suffix top)
  | ret h go => exact go.shifts rfl
  | exitLoop go => exact go.shifts rfl
  | branch | branchConstant => split <;> exact .pops List.suffix_rfl
  | _ => exact .pops List.suffix_rfl

theorem Ends.kinds_eq {r : Region} {outer : List Region} {end_ : RegionExit} (ends : m.Ends r outer end_ z) :
    z.stack.kinds = m.stack.kinds := by
  rw [ends.stack_eq]

theorem Move.shifts (move : m.Move p es y) : Shifts p m y := by
  cases move with
  | execute runs function code go => exact go.shifts runs ⟨_, function, code⟩
  | fallOff runs function code go => exact go.shifts rfl
  | search active room go => exact go.shifts rfl
  | complete ends go => exact go.shifts ends.kinds_eq
  | abandonSearch ends transfer go => exact go.shifts ends.kinds_eq
  | abandonReturn ends transfer | abandon ends transfer => exact .pops (ends.kinds_eq ▸ List.suffix_rfl)

/-- A loop frame of `m` was pushed in `q`, on frames of the kinds `below`, and has been on the stack since. -/
structure PushedIn (p : Program) (m : Machine) (below : List FrameKind) (start stop : Nat) (q : Machine) : Prop where
  reach : Reachable p q
  runs : q.Runs
  code : p.At q.function q.pc (.pushLoop start stop)
  kinds : q.stack.kinds = below
  stays : ∃ es y, q.advance p = ⟨es, .ok y⟩ ∧ OnStack p below.length y m

/-- Every loop frame was pushed by an instruction. -/
theorem Reachable.pushedIn {below : List FrameKind} (h : Reachable p m)
    (loop : .loop start stop :: below <:+ m.stack.kinds) : ∃ q, PushedIn p m below start stop q := by
  induction h with
  | ready => cases List.suffix_nil.1 loop
  | start h start ih =>
    obtain ⟨halted, rfl⟩ := start_ok start
    rw [kinds_started halted] at loop
    simp [List.suffix_cons_iff] at loop
  | @advance m y es h running move ih =>
    -- the frame was there before the transition, or the transition pushes it
    have before (loop' : .loop start stop :: below <:+ m.stack.kinds) : ∃ q, PushedIn p y below start stop q := by
      obtain ⟨q, pushed⟩ := ih loop'
      obtain ⟨es', w, first, stays⟩ := pushed.stays
      have hlt := loop.length_le
      rw [List.length_cons, Stack.length_kinds] at hlt
      exact ⟨q, pushed.reach, pushed.runs, pushed.code, pushed.kinds, es', w, first, stays.step move hlt⟩
    cases (advance_move move).shifts with
    | pops kinds => exact before (loop.trans kinds)
    | @pushes k l suffix kinds plain =>
      rw [kinds] at loop
      rcases List.suffix_cons_iff.1 loop with heq | loop
      · cases heq; cases plain
      · exact before (loop.trans suffix)
    | @pushesLoop start' stop' runs code kinds =>
      have loop' := loop
      rw [kinds] at loop'
      rcases List.suffix_cons_iff.1 loop' with heq | loop'
      · cases heq
        exact ⟨m, h, runs, code, rfl, es, y, move, .begin⟩
      · exact before loop'

/-! ## Where an exit goes -/

/-- The loop that an exit of `m` leaves, with `depth` loops in it: the frame at the height `i`, which is above that of
the running function and not below the floor. -/
structure LoopAt (m : Machine) (depth i start stop : Nat) : Prop where
  kind : (m.stack.get? i).map Frame.kind = some (.loop start stop)
  owned : m.frame < i
  floor : m.floor ≤ i
  inner : loopsFrom (i + 1) m.stack.kinds = depth

/-- The loop at the height `i` of `m` is left in `y`. The frames below are still there, and the finally ranges above
are those of the blocks that have run. -/
structure LoopLeft (m : Machine) (exit : LoopExit) (i start stop : Nat) (blocks : List (Nat × Span)) (x y : Machine) :
    Prop where
  kinds : y.stack.kinds = bottom i m.stack.kinds
  depth : y.stack.depth = i
  function : y.function = m.function
  frame : y.frame = m.frame
  pc : y.pc = exit.target start stop
  pending : y.pending = m.pending
  regions : y.regions = m.regions
  slots : y.slots = x.slots
  constants : y.constants = x.constants
  blocks : blocks = cleanupsFrom i m.stack.kinds

/-- The fault of an exit without a loop to leave. The frame of the running function and those below the floor are
still there. -/
structure NoLoop (m : Machine) (exit : LoopExit) (depth : Nat) (fault : Fault) : Prop where
  cause : fault.cause = .noLoop exit depth ∨ fault.cause = .exitLeavesCleanup exit
  kinds : ∃ n, m.frame < n ∧ m.floor ≤ n ∧ fault.left.stack.kinds = bottom n m.stack.kinds

namespace LoopAt

theorem loopsFrom_eq (h : LoopAt m depth i start stop) : loopsFrom i m.stack.kinds = depth + 1 := by
  have hlt : i ≤ m.stack.kinds.length := by
    obtain ⟨f, hf, -⟩ := Option.map_eq_some_iff.1 h.kind
    rw [Stack.length_kinds]
    exact Nat.le_of_lt (Stack.lt_depth_of_get? hf)
  have := loopsFrom_of_suffix (Stack.kinds_of_get? h.kind)
  rwa [length_bottom hlt, h.inner] at this

/-- There is one such loop at most. -/
theorem unique {i' start' stop' : Nat} (h : LoopAt m depth i start stop) (h' : LoopAt m depth i' start' stop') :
    i' = i ∧ start' = start ∧ stop' = stop := by
  -- from above the lower one there would be `depth` loops, and from the higher one, which is in there, one more
  have ne_lt {a b a₁ a₂ b₁ b₂ : Nat} (ha : LoopAt m depth a a₁ a₂) (hb : LoopAt m depth b b₁ b₂) : ¬ a < b := by
    intro hlt
    have := loopsFrom_anti (Nat.succ_le_of_lt hlt) m.stack.kinds
    rw [hb.loopsFrom_eq, ha.inner] at this
    omega
  obtain rfl : i' = i := Nat.le_antisymm (Nat.not_lt.1 (ne_lt h h')) (Nat.not_lt.1 (ne_lt h' h))
  have := h'.kind
  rw [h.kind] at this
  cases this
  exact ⟨rfl, rfl, rfl⟩

/-- An exit comes down to no frame below the loop. -/
theorem lt_depth {t : Transfer} (h : LoopAt m depth i start stop)
    (descends : Descends m (.exitLoop exit depth depth) blocks z t) : i < z.stack.depth := by
  obtain ⟨remaining, loops, -⟩ := descends.remains
  rcases Nat.lt_or_ge i z.stack.depth with hlt | hge
  · exact hlt
  · have := loopsFrom_anti hge m.stack.kinds
    rw [h.loopsFrom_eq] at this
    omega

/-- The running function is the one that the frames below the loop belong to. -/
theorem pushed_place {q : Machine} (h : LoopAt m depth i start stop) (wf : m.WellFormed p)
    (running : m.halted = false) (wfq : q.WellFormed p) (kinds : q.stack.kinds = bottom i m.stack.kinds) :
    q.stack.depth = i ∧ q.function = m.function ∧ q.frame = m.frame := by
  obtain ⟨f, hf, -⟩ := Option.map_eq_some_iff.1 h.kind
  have hlt := Stack.lt_depth_of_get? hf
  have hdepth : q.stack.depth = i := by
    rw [← Stack.length_kinds, kinds, length_bottom (by rw [Stack.length_kinds]; omega)]
  obtain ⟨c, hc, hfunction⟩ := wf.top_of_running running
  -- the frame of the function lies below the loop, so it is the highest of its kind there, too
  have top : topCall? q.stack.kinds = some (m.frame, c) := by
    rw [← Stack.callBelow?_depth] at hc
    obtain ⟨-, call, between⟩ := Stack.callBelow?_eq_some_iff.1 hc
    rw [kinds, ← Stack.callBelow?_eq_topCall? (Nat.le_of_lt hlt)]
    exact Stack.callBelow?_eq_some_iff.2 ⟨h.owned, call, fun j hj hi => between j hj (Nat.lt_trans hi hlt)⟩
  have hne : q.stack.kinds ≠ [] := by
    intro empty
    rw [empty] at top
    cases top
  obtain ⟨d, hd, hq⟩ := wfq.top hne
  rw [top, Option.some.injEq, Prod.mk.injEq] at hd
  obtain ⟨frame, rfl⟩ := hd
  exact ⟨hdepth, hq.symm.trans hfunction, frame.symm⟩

end LoopAt

/-- How `m` leaves loops. -/
structure LeavesLoops (p : Program) (m : Machine) (exit : LoopExit) (depth : Nat) : Prop where
  /-- The blocks run one after the other, from the top of the stack down, and none of a try frame below the loop. -/
  next : ∀ ⦃blocks x e range t⦄, Continues p m blocks x → Begins p x e range t → NextCleanup p m blocks e range t ∧
    ∀ i start stop, LoopAt m depth i start stop → i < e.stack.depth
  /-- After the last one the loop is left. -/
  leaves : ∀ ⦃i start stop blocks x⦄, LoopAt m depth i start stop → Continues p m blocks x →
    (∀ e range t, ¬ Begins p x e range t) →
    ∃ es y, x.advance p = ⟨es, .ok y⟩ ∧ LoopLeft m exit i start stop blocks x y
  /-- Without a loop to leave there is a fault. -/
  faults : ∀ ⦃blocks x⦄, (∀ i start stop, ¬ LoopAt m depth i start stop) → Continues p m blocks x →
    (∀ e range t, ¬ Begins p x e range t) → ∃ es fault, x.advance p = ⟨es, .error fault⟩ ∧ NoLoop m exit depth fault
  /-- If all blocks come to their ends, there is a last one. -/
  completes : CleanupsComplete p m → ∃ blocks x, Continues p m blocks x ∧ ∀ e range t, ¬ Begins p x e range t
  /-- A block that throws ends the exit. -/
  givenUp : ∀ ⦃blocks x e range t w z⦄, Continues p m blocks x → Begins p x e range t →
    During p (e.region range t) e.regions (e.entered range t) w → w.Ends (e.region range t) e.regions .threw z →
    ∃ es y, w.advance p = ⟨es, .ok y⟩ ∧ GivenUp m e w y
  /-- The frames below the loop are those that were on the stack just before it was pushed. -/
  pushed : ∀ ⦃i start stop⦄, LoopAt m depth i start stop →
    ∃ q, PushedIn p m (bottom i m.stack.kinds) start stop q ∧ q.stack.depth = i ∧ q.function = m.function ∧
      q.frame = m.frame

/-- An exit begins at the top of the stack. -/
theorem descent_exitLoop (valid : p.Valid) (reach : Reachable p m) (running : m.halted = false) (runs : m.Runs)
    (code : p.At m.function m.pc (.exitLoop exit depth)) :
    Descent p m (.exitLoop exit depth depth) [] m m (.exitLoop exit depth depth) := by
  obtain ⟨f, hf, hi⟩ := code
  have wf := reach.wellFormed valid
  have advance : m.advance p =
      note (.executing m.function m.pc (.exitLoop exit depth)) (m.resume (.exitLoop exit depth depth)) := by
    simp only [runs.advance, execute, hf, hi, perform]
    rfl
  refine ⟨reach, running, ⟨[.executing m.function m.pc (.exitLoop exit depth)], by simp, advance⟩, rfl, rfl, wf,
    (wf.top_of_running running).ne_nil, .begin rfl ⟨rfl, rfl, rfl, rfl, rfl⟩ ⟨depth, rfl, rfl⟩⟩

/-- Where the last transition of an exit ends. -/
theorem Descent.exits {t : Transfer} (h : Descent p m (.exitLoop exit depth depth) blocks x z t)
    (meets : Meets z t (z.resume t)) (last : ∀ e range t, ¬ Begins p x e range t) :
    (∃ i start stop es y, LoopAt m depth i start stop ∧ x.advance p = ⟨es, .ok y⟩ ∧
      LoopLeft m exit i start stop blocks x y) ∨
    ((∀ i start stop, ¬ LoopAt m depth i start stop) ∧
      ∃ es fault, x.advance p = ⟨es, .error fault⟩ ∧ NoLoop m exit depth fault) := by
  obtain ⟨before, -, advance⟩ := h.advance
  have place := h.descends.place
  have floor : z.floor = m.floor := by unfold Machine.floor; rw [place.regions]
  have atFloor := h.wellFormed.floor_le_depth
  have owned := (h.wellFormed.top h.owned).lt_length
  rw [Stack.length_kinds, place.frame] at owned
  have kinds : z.stack.kinds = bottom z.stack.depth m.stack.kinds := by
    rw [← Stack.length_kinds, bottom_of_suffix h.descends.kinds]
  obtain ⟨remaining, loops, rfl⟩ := h.descends.remains
  generalize go : z.resume (.exitLoop exit depth remaining) = tr at meets advance
  cases meets with
  | cleanup room top kind => exact absurd (h.interrupts go) (last _ _ _)
  | @loop exit depth start stop f rest room top kind =>
    left
    have hdepth : z.stack.depth = rest.depth + 1 := by rw [top, Stack.depth_push]
    have hroom := floor_lt_depth room
    obtain ⟨-, htop, -⟩ := h.wellFormed.drop top hroom (by rw [kind]; rfl)
    have hframe := htop.lt_length
    rw [Stack.length_kinds, place.frame] at hframe
    have at_ : LoopAt m depth rest.depth start stop := by
      refine ⟨?_, hframe, by omega, ?_⟩
      · rw [Stack.map_kind_get?_of_suffix h.descends.kinds (by omega), top, Stack.get?_push, if_pos rfl,
          Option.map_some, kind]
      · rw [← hdepth]; omega
    refine ⟨rest.depth, start, stop, _, _, at_, advance, h.descends.below top, rfl, place.function, place.frame, rfl,
      place.pending, place.regions, h.slots, h.constants, ?_⟩
    rw [h.descends.cleanups_below top, kind]
    exact (List.append_nil _).symm
  | @noLoop exit depth remaining call f rest room top kind =>
    right
    refine ⟨?_, _, _, advance, .inl rfl, z.stack.depth, owned, by omega, kinds⟩
    -- a loop that is meant lies above the frame of the function, and the exit has come down to that frame
    intro i start stop at_
    have := at_.lt_depth h.descends
    rw [top, Stack.depth_push, ← h.wellFormed.frame_eq top kind, place.frame] at this
    have := at_.owned
    omega
  | exitAtFloor empty =>
    right
    refine ⟨?_, _, _, advance, .inr rfl, z.stack.depth, owned, by omega, kinds⟩
    -- it does not lie below the floor either
    intro i start stop at_
    have := at_.lt_depth h.descends
    have := at_.floor
    unfold available at empty
    omega

/-- In every reachable machine that is about to leave loops, at whatever floor: the exit goes down to the loop that is
meant, and its finally blocks run on the way, unless one of them throws. -/
theorem exits_loops {p : Program} {m : Machine} {exit : LoopExit} {depth : Nat} (valid : p.Valid)
    (reach : Reachable p m) (running : m.halted = false) (runs : m.Runs)
    (code : p.At m.function m.pc (.exitLoop exit depth)) : LeavesLoops p m exit depth := by
  have begin_ := descent_exitLoop valid reach running runs code
  refine ⟨?_, ?_, ?_, begin_.last valid .begin, ?_, ?_⟩
  · intro blocks x e range t continues begins
    obtain ⟨z, t', h, meets⟩ := begin_.continues valid continues
    have next := h.nextCleanup valid meets begins
    refine ⟨next, fun i start stop at_ => ?_⟩
    obtain ⟨f, rest, catches, -, top, -, rfl, -⟩ := h.begins meets begins
    have hlt := at_.lt_depth h.descends
    rw [top, Stack.depth_push] at hlt
    rcases Nat.lt_succ_iff_lt_or_eq.1 hlt with hlt | rfl
    · exact hlt
    · -- the frame at this height is that of the block, and not that of a loop
      obtain ⟨catches, attempt⟩ := next.attempt
      rw [at_.kind] at attempt
      cases attempt
  · intro i start stop blocks x at_ continues last
    obtain ⟨z, t, h, meets⟩ := begin_.continues valid continues
    rcases h.exits meets last with ⟨i', start', stop', es, y, at', move, left⟩ | ⟨none, -⟩
    · obtain ⟨rfl, rfl, rfl⟩ := at'.unique at_
      exact ⟨es, y, move, left⟩
    · exact absurd at_ (none i start stop)
  · intro blocks x none continues last
    obtain ⟨z, t, h, meets⟩ := begin_.continues valid continues
    rcases h.exits meets last with ⟨i, start, stop, -, -, at_, -⟩ | ⟨-, fault⟩
    · exact absurd at_ (none i start stop)
    · exact fault
  · intro blocks x e range t w z continues begins during ends
    obtain ⟨z', t', h, meets⟩ := begin_.continues valid continues
    obtain ⟨es, y, move, up, -⟩ := h.givenUp valid meets begins during ends
    exact ⟨es, y, move, up⟩
  · intro i start stop at_
    obtain ⟨q, pushed⟩ := reach.pushedIn (Stack.kinds_of_get? at_.kind)
    have place := at_.pushed_place (reach.wellFormed valid) running (pushed.reach.wellFormed valid) pushed.kinds
    exact ⟨q, pushed, place⟩

/-- A program whose finally block has a loop. In the loop are a scope, a try construct with a finally block of its
own, and an inner loop, from which the outer loop is begun again. -/
def againInCleanup : Program :=
  ⟨#[⟨"main", 1, #[.pushTry [] (some ⟨2, 9⟩), .popFrame, .pushLoop 2 9, .pushScope,
    .pushTry [] (some ⟨7, 8⟩), .pushLoop 5 7, .exitLoop .again 1, .nop, .jump 2]⟩]⟩

/-- The inner block runs, and then the loop begins again with the stack of before. -/
theorem exits_loops_again : ∃ m, againInCleanup.Valid ∧ Reachable againInCleanup m ∧ m.halted = false ∧ m.Runs ∧
    againInCleanup.At m.function m.pc (.exitLoop .again 1) ∧ m.floor = 1 ∧ LoopAt m 1 1 2 9 ∧
    CleanupsComplete againInCleanup m ∧ ∃ x es y, Continues againInCleanup m [(0, ⟨7, 8⟩)] x ∧
      x.advance againInCleanup = ⟨es, .ok y⟩ ∧ LoopLeft m .again 1 2 9 [(0, ⟨7, 8⟩)] x y ∧ y.pc = 2 := by
  have valid : againInCleanup.Valid := by decide
  let tried := (((ready againInCleanup).started []).pushFrame (.attempt [] (some ⟨2, 9⟩))).next
  let block := { tried with stack := ((ready againInCleanup).started []).stack }.entered ⟨2, 9⟩ .pop
  let inScope := ((block.pushFrame (.loop 2 9)).next.pushFrame .scope).next
  let m := ((inScope.pushFrame (.attempt [] (some ⟨7, 8⟩))).next.pushFrame (.loop 5 7)).next
  let e := { m with stack := inScope.stack }
  let x := (e.entered ⟨7, 8⟩ (.exitLoop .again 1 0)).next
  have started : Reachable againInCleanup ((ready againInCleanup).started []) := .start .ready rfl
  have reach : Reachable againInCleanup m :=
    (((((started.advance rfl rfl).advance rfl rfl).advance rfl rfl).advance rfl rfl).advance rfl rfl).advance rfl
      rfl
  have runs : m.Runs := by
    refine ⟨rfl, fun r outer regions => ?_⟩
    cases regions
    rintro ⟨-, stop⟩
    exact absurd stop (by decide)
  have code : againInCleanup.At m.function m.pc (.exitLoop .again 1) := ⟨_, rfl, rfl⟩
  have at_ : LoopAt m 1 1 2 9 := ⟨rfl, by decide, by decide, rfl⟩
  have begins : Begins againInCleanup m e ⟨7, 8⟩ (.exitLoop .again 1 0) := ⟨[.executing 0 6 (.exitLoop .again 1)], rfl⟩
  have completes : Completes againInCleanup e ⟨7, 8⟩ (.exitLoop .again 1 0) x := by
    refine ⟨.step .begin ?_ rfl, _, .completed rfl rfl rfl (by decide) rfl⟩
    rintro exit z (⟨regions, settled, frame, stop⟩ | ⟨regions, active⟩)
    · cases regions; exact absurd stop (by decide)
    · cases active
  have last : ∀ e range t, ¬ Begins againInCleanup x e range t := by
    intro e range t begins
    have event : .cleanupBegan e.function range e.stack.depth ∈ [Event.loopLeft .again 1 2] := (begins.move rfl).1
    simp at event
  have continues : Continues againInCleanup m [(0, ⟨7, 8⟩)] x := .block .begin begins completes
  obtain ⟨es, y, move, left⟩ := (exits_loops valid reach rfl runs code).leaves at_ continues last
  exact ⟨m, valid, reach, rfl, runs, code, rfl, at_, .block begins completes (.none last), x, es, y, continues, move,
    left, left.pc⟩

end SlotVM.Machine
