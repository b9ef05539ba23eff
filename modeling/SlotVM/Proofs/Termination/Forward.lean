/-
Programs that go forward come to an end. Every transition makes the rank of the machine smaller, so a run takes no
more transitions than the rank of its beginning, and no more of them are taken in any of its finally blocks.
`forward_terminates` says it for all arguments.
-/
import SlotVM.Proofs.Termination.Rank
import SlotVM.Proofs.Machine.Whole

namespace SlotVM

/-- No run of a program that goes forward takes more transitions than the rank of its beginning, with the place of the
first instruction and the frame of the entry function. -/
def Program.forwardBound (p : Program) : Nat := p.entry?.elim 0 fun f => f.weight 0 + 1

namespace Machine

/-- The run that begins in `m` takes at most `bound` transitions, and so does each of its finally blocks. -/
structure Terminates (p : Program) (bound : Nat) (m : Machine) : Prop where
  run : (∃ fault, (m.runUntil p ignore halted () bound).2 = .error fault) ∨
    ∃ x outcome, (m.runUntil p ignore halted () bound).2 = .ok x ∧ x.outcome = .ok outcome
  /-- A block comes to its end, or to a fault, after `n` transitions. -/
  cleanups : ∀ log x e range t, m.Run p log x → x.halted = false → Begins p x e range t → ∃ n y, n < bound ∧
    (e.entered range t).after? p n = some y ∧ During p (e.region range t) e.regions (e.entered range t) y ∧
      ((∃ exit z, y.Ends (e.region range t) e.regions exit z) ∨ ∃ fault, (y.advance p).result = .error fault)

end Machine

/-! ## Only the entry function runs -/

theorem topCall?_split : ∀ {ks : List FrameKind} {i : Nat} {c : CallFrame}, topCall? ks = some (i, c) →
    ∃ above below, ks = above ++ .call c :: below
  | k :: ks, i, c, h => by
    cases hk : k.call? with
    | none =>
      rw [topCall?_cons hk] at h
      obtain ⟨above, below, rfl⟩ := topCall?_split h
      exact ⟨k :: above, below, rfl⟩
    | some d =>
      rw [topCall?, hk] at h
      cases h
      cases k <;> cases hk
      exact ⟨[], ks, rfl⟩

/-- If the entry function calls nothing, its frame is the only function frame. -/
theorem Stacked.only_entry {p : Program} (none : ∀ pc target ref args, ¬ p.At Program.entryId pc (.call target ref args)) :
    ∀ {ks : List FrameKind}, Stacked p ks → ∀ above c below, ks = above ++ .call c :: below → c.IsEntry ∧ below = []
  | [], _, above, c, below, split => by simp at split
  | k :: ks, ⟨rests, stacked⟩, above, c, below, split => by
    cases above with
    | cons a above => exact stacked.only_entry none above c below (List.cons.inj split).2
    | nil =>
      obtain ⟨rfl, rfl⟩ := List.cons.inj split
      rcases rests.call with entry | ⟨i, d, top, from_⟩
      · exact entry
      · -- the function frame below is that of the entry function, which makes no call
        obtain ⟨above, below, split⟩ := topCall?_split top
        obtain ⟨pc, target, ref, args, -, at_, -⟩ := from_.caller
        rw [(stacked.only_entry none above d below split).1.function] at at_
        exact absurd at_ (none pc target ref args)

namespace Machine

variable {p : Program} {m m' x y : Machine} {es : List Event} {f : FunctionDef}

section
variable (valid : p.Valid) (entry : p.entry? = some f) (forward : f.Forward)
include valid entry forward

theorem Reachable.onlyEntry (reach : Reachable p m) : m.OnlyEntry ∧ (m.halted = false → m.function = Program.entryId) := by
  have wf := reach.wellFormed valid
  have stacked := wf.stacked.only_entry fun pc target ref args at_ => by
    obtain ⟨g, hg, hi⟩ := at_
    rw [show p.functions[Program.entryId]? = some f from entry] at hg
    cases hg
    exact forward.at hi
  refine ⟨fun above c below split => ?_, fun running => ?_⟩
  · obtain ⟨isEntry, bottom⟩ := stacked above c below split
    exact ⟨isEntry.caller, bottom⟩
  · obtain ⟨c, top, function⟩ := wf.top_of_running running
    obtain ⟨above, below, split⟩ := topCall?_split top
    rw [← function]
    exact (stacked above c below split).1.function

end

/-! ## No finally block interrupts a `Continue` -/

theorem Carries.leaves {t : Transfer} (go : m.Carries t es m') (h : ∀ r ∈ m.regions, r.transfer.Leaves)
    (ht : t.Leaves) : ∀ r ∈ m'.regions, r.transfer.Leaves := by
  induction go with
  | popped | caught | uncaught | left | returned | ended => exact h
  | cleanup => exact List.forall_mem_cons.2 ⟨ht.past _, h⟩
  | pass seeks room top passes go ih => exact ih h (ht.past _)
  | abort seeks room top kind go ih => exact ih (by rwa [goBack_regions]) trivial

theorem Performs.leaves {i : Instruction} (go : m.Performs p i es m') (forward : i.Forward m.pc)
    (h : ∀ r ∈ m.regions, r.transfer.Leaves) : ∀ r ∈ m'.regions, r.transfer.Leaves := by
  cases go with
  | popCleanup => exact List.forall_mem_cons.2 ⟨trivial, h⟩
  | ret hv go => exact go.leaves h trivial
  | exitLoop go => exact go.leaves h forward
  | branch | branchConstant => split <;> exact h
  | _ => exact h

theorem Move.leaves (move : m.Move p es m') (function : p.functions[m.function]? = some f) (forward : f.Forward)
    (h : ∀ r ∈ m.regions, r.transfer.Leaves) : ∀ r ∈ m'.regions, r.transfer.Leaves := by
  have ended {r : Region} {outer : List Region} {exit : RegionExit} {x : Machine} (ends : m.Ends r outer exit x) :
      r.transfer.Leaves ∧ ∀ q ∈ x.regions, q.transfer.Leaves := by
    rw [ends.regions] at h
    rw [ends.regions_eq]
    exact List.forall_mem_cons.1 h
  cases move with
  | execute runs function' code go =>
    rw [function] at function'
    cases function'
    exact go.leaves (forward.at code) h
  | fallOff runs function' code go => exact go.leaves h trivial
  | search active room go => exact go.leaves h trivial
  | complete ends go => exact go.leaves (ended ends).2 (ended ends).1
  | abandonSearch ends transfer go => exact go.leaves (ended ends).2 trivial
  | abandonReturn ends transfer | abandon ends transfer => exact (ended ends).2

section
variable (valid : p.Valid) (entry : p.entry? = some f) (forward : f.Forward)
include valid entry forward

theorem Reachable.leaves (reach : Reachable p m) : ∀ r ∈ m.regions, r.transfer.Leaves := by
  induction reach with
  | ready => intro r hr; cases hr
  | start reach start ih =>
    obtain ⟨-, rfl⟩ := start_ok start
    intro r hr
    cases hr
  | @advance m m' es reach running move ih =>
    have function : p.functions[m.function]? = some f := by
      rw [(reach.onlyEntry valid entry forward).2 running]
      exact entry
    exact (advance_move move).leaves function forward ih

theorem Reachable.goesForward (reach : Reachable p m) (running : m.halted = false) : m.GoesForward p f := by
  obtain ⟨only, function⟩ := reach.onlyEntry valid entry forward
  have function : p.functions[m.function]? = some f := by
    rw [function running]
    exact entry
  refine ⟨function, only, ?_, reach.leaves valid entry forward, reach.pending_isActive⟩
  obtain ⟨g, hg, le⟩ := (reach.wellFormed valid).pc
  rw [function] at hg
  cases hg
  exact le

/-! ## Runs come to an end -/

theorem Reachable.rank_lt (reach : Reachable p m) (running : m.halted = false) (move : m.advance p = ⟨es, .ok m'⟩) :
    m'.halted = true ∨ m'.rank f.weight < m.rank f.weight :=
  (advance_move move).rank_lt (reach.goesForward valid entry forward running) forward running

theorem Reachable.rank_pos (reach : Reachable p m) (running : m.halted = false) : 0 < m.rank f.weight := by
  have := FunctionDef.one_lt_weight (reach.goesForward valid entry forward running).pc
  unfold rank
  split <;> omega

/-- As many transitions as the rank says lead to the end of the run. -/
theorem Reachable.runUntil_ends : ∀ {limit : Nat} {m : Machine}, Reachable p m → m.rank f.weight ≤ limit →
    (∃ fault, (m.runUntil p ignore Machine.halted () limit).2 = .error fault) ∨
      ∃ x, (m.runUntil p ignore Machine.halted () limit).2 = .ok x ∧ x.halted = true := by
  intro limit
  induction limit with
  | zero =>
    intro m reach le
    refine .inr ⟨m, rfl, ?_⟩
    cases running : m.halted with
    | true => rfl
    | false =>
      have := reach.rank_pos valid entry forward running
      omega
  | succ limit ih =>
    intro m reach le
    cases running : m.halted with
    | true =>
      rw [runUntil_halted running]
      exact .inr ⟨m, rfl, running⟩
    | false =>
      rw [Machine.runUntil, running, if_neg Bool.false_ne_true]
      dsimp only
      cases result : (m.advance p).result with
      | error fault => exact .inl ⟨fault, rfl⟩
      | ok m' =>
        have move : m.advance p = ⟨(m.advance p).events, .ok m'⟩ := by rw [← result]
        rcases reach.rank_lt valid entry forward running move with ended | lt
        · dsimp only
          rw [show ignore () _ = () from rfl, runUntil_halted ended]
          exact .inr ⟨m', rfl, ended⟩
        · exact ih (reach.advance running move) (by omega)

theorem Run.rank_le {log : List Event} (run : m.Run p log x) (reach : Reachable p m) :
    x.halted = true ∨ x.rank f.weight ≤ m.rank f.weight := by
  induction run with
  | refl => exact .inr (Nat.le_refl _)
  | @step log es x y run running move ih =>
    rcases ih with ended | le
    · rw [running] at ended
      cases ended
    · refine ((run.reachable reach).rank_lt valid entry forward running move).imp_right fun lt => ?_
      exact Nat.le_trans (Nat.le_of_lt lt) le

/-- A block that has taken `n` transitions comes to its end after as many more as the rank says, at most. -/
theorem During.ends {r : Region} {outer : List Region} {n : Nat} (h : During p r outer m y) (reach : Reachable p m)
    (regions : r :: outer <:+ m.regions) (floor : r.floor = m.stack.depth) (hn : m.after? p n = some y)
    (le : n + y.rank f.weight ≤ m.rank f.weight) : ∃ n z, n ≤ m.rank f.weight ∧ m.after? p n = some z ∧
      During p r outer m z ∧ ((∃ exit w, z.Ends r outer exit w) ∨ ∃ fault, (z.advance p).result = .error fault) := by
  -- the rank becomes smaller as long as the block runs
  induction hk : y.rank f.weight using Nat.strongRecOn generalizing n y with
  | ind k ih =>
    by_cases ended : ∃ exit w, y.Ends r outer exit w
    · exact ⟨n, y, by omega, hn, h, .inl ended⟩
    have inside (exit : RegionExit) (w : Machine) : ¬ y.Ends r outer exit w := fun ends => ended ⟨exit, w, ends⟩
    obtain ⟨reachY, suffix, -⟩ := h.spec valid reach regions floor
    have running := (reachY.wellFormed valid).running suffix
    cases result : (y.advance p).result with
    | error fault => exact ⟨n, y, by omega, hn, h, .inr ⟨fault, result⟩⟩
    | ok z =>
      have move : y.advance p = ⟨(y.advance p).events, .ok z⟩ := by rw [← result]
      have next := h.step inside move
      obtain ⟨reachZ, suffix, -⟩ := next.spec valid reach regions floor
      rcases reachY.rank_lt valid entry forward running move with halted | lt
      · rw [(reachZ.wellFormed valid).running suffix] at halted
        cases halted
      · exact ih _ (hk ▸ lt) next (after?_step hn running move) (by omega) rfl

end

theorem rank_started (halted : m.halted = true) (args : List String) (w : Nat → Nat) :
    (m.started args).rank w = w 0 + 1 := by
  rw [rank_settled (m := m.started args) rfl, held, kinds_started halted]
  rfl

/-- Programs that go forward terminate, with any arguments, and so does every finally block that they begin. -/
theorem forward_terminates {m₀ : Machine} {args : List String} (valid : p.Valid) (forward : p.Forward)
    (reach : Reachable p m) (start : m.start args = .ok m₀) : Terminates p p.forwardBound m₀ := by
  obtain ⟨f, entry⟩ : ∃ f, p.entry? = some f := ⟨_, Array.getElem?_eq_getElem valid.entry⟩
  have forward : f.Forward := forward f entry
  have reach₀ := reach.start start
  have bound : m₀.rank f.weight = p.forwardBound := by
    obtain ⟨halted, rfl⟩ := start_ok start
    rw [rank_started halted, Program.forwardBound, entry]; rfl
  constructor
  · refine (reach₀.runUntil_ends valid entry forward (Nat.le_of_eq bound)).imp_right ?_
    rintro ⟨x, hx, halted⟩
    exact ⟨x, _, hx, by rw [outcome, if_pos halted]⟩
  · rintro log x e range t run running ⟨before, move⟩
    have reachX := run.reachable reach₀
    have entered : Reachable p (e.entered range t) := reachX.advance running move
    obtain ⟨n, y, le, hn, during, ends⟩ :=
      During.begin.ends (n := 0) valid entry forward entered List.suffix_rfl rfl rfl (Nat.le_of_eq (Nat.zero_add _))
    refine ⟨n, y, ?_, hn, during, ends⟩
    have le' : x.rank f.weight ≤ m₀.rank f.weight := by
      rcases run.rank_le valid entry forward reach₀ with halted | le
      · rw [running] at halted
        cases halted
      · exact le
    rcases reachX.rank_lt valid entry forward running move with halted | lt
    · rw [(entered.wellFormed valid).running List.suffix_rfl] at halted
      cases halted
    · omega

/-- A program whose loop is left through a finally block. -/
def breakThroughCleanup : Program :=
  ⟨#[⟨"main", 1, #[.pushLoop 1 5, .pushTry [⟨.any, 4⟩] (some ⟨3, 4⟩), .exitLoop .leave 0, .nop, .popFrame,
    .assign 0 (.integer 7), .ret 0]⟩]⟩

/-- Its run begins a finally block, and ends. -/
theorem forward_terminates_break : breakThroughCleanup.Valid ∧ breakThroughCleanup.Forward ∧
    (ready breakThroughCleanup).start [] = .ok ((ready breakThroughCleanup).started []) ∧
    (∃ log x e, ((ready breakThroughCleanup).started []).Run breakThroughCleanup log x ∧ x.halted = false ∧
      Begins breakThroughCleanup x e ⟨3, 4⟩ (.exitLoop .leave 0 0)) ∧
    Terminates breakThroughCleanup breakThroughCleanup.forwardBound ((ready breakThroughCleanup).started []) := by
  have valid : breakThroughCleanup.Valid := by decide
  have forward : breakThroughCleanup.Forward := by decide
  have pushed : ((ready breakThroughCleanup).started []).Run breakThroughCleanup _ _ :=
    (Run.refl.step rfl rfl).step rfl rfl
  let looping := ((ready breakThroughCleanup).started []).pushFrame (.loop 1 5)
  exact ⟨valid, forward, rfl, ⟨_, _, { looping with pc := 2 }, pushed, rfl, ⟨[_], rfl⟩⟩,
    forward_terminates valid forward .ready rfl⟩

end Machine

end SlotVM
