/-
The search for a handler. It takes frames off until a try construct has a clause for the error, runs the
finally blocks of those that it takes off, and goes on at the first such clause. `handler_selected`: if the
blocks come to their ends, that is the topmost try construct with a clause for the error, wherever it is and
whatever calls lie in between; without one the error is still active and every frame is gone.
-/
import SlotVM.Proofs.Cleanup.Balance
import SlotVM.Proofs.Cleanup.Interrupted
import SlotVM.Proofs.Control.CallChain

namespace SlotVM

/-! ## Clauses and finally ranges by height -/

/-- The clauses that a frame holds. -/
def FrameKind.catches : FrameKind → List CatchClause
  | .attempt catches _ => catches
  | _ => []

/-- The first clause for an error. -/
def clauseFor? (error : Value) (catches : List CatchClause) : Option CatchClause :=
  catches.find? (·.type.accepts error)

/-- The first clause for an error of the frame at a height. -/
def Stack.clauseFor? (s : Stack) (error : Value) (i : Nat) : Option CatchClause :=
  ((s.get? i).map Frame.kind).bind fun k => SlotVM.clauseFor? error k.catches

/-- The finally ranges that the frames from the height `n` up hold, the top one first, each with the function
that owns the frame. -/
def cleanupsFrom (n : Nat) : List FrameKind → List (Nat × Span)
  | [] => []
  | k :: below => if n ≤ below.length then k.held below ++ cleanupsFrom n below else []

theorem cleanupsFrom_length (ks : List FrameKind) : cleanupsFrom ks.length ks = [] := by
  cases ks with
  | nil => rfl
  | cons k below => rw [cleanupsFrom, if_neg (by simp)]

/-- Going down by one frame adds what that frame holds. -/
theorem cleanupsFrom_of_suffix {k : FrameKind} {l : List FrameKind} : ∀ {ks : List FrameKind}, k :: l <:+ ks →
    cleanupsFrom l.length ks = cleanupsFrom (l.length + 1) ks ++ k.held l
  | [], h => by simp at h
  | a :: ks, h => by
    rcases List.suffix_cons_iff.1 h with heq | h
    · cases heq
      rw [cleanupsFrom, cleanupsFrom, if_pos (Nat.le_refl _), if_neg (by omega), cleanupsFrom_length]
      simp
    · have hlen : l.length + 1 ≤ ks.length := h.length_le
      rw [cleanupsFrom, cleanupsFrom, if_pos (by omega), if_pos hlen, cleanupsFrom_of_suffix h, List.append_assoc]

theorem Stack.clauseFor?_of_le {s : Stack} {error : Value} {i : Nat} (h : s.depth ≤ i) :
    s.clauseFor? error i = none := by
  unfold Stack.clauseFor? get?
  rw [if_neg (by omega)]; rfl

/-- What is left of a search when it has taken off a frame are the clauses of that frame. -/
theorem Transfer.past_unwind (scope : Scope) (catches : List CatchClause) (f : Frame) :
    (Transfer.unwind scope catches).past f = .unwind f.scope f.kind.catches := by
  cases hf : f.kind <;> simp [past, hf, FrameKind.catches]

namespace Machine

/-! ## Where the search ends -/

/-- The topmost try construct with a clause for the error is at the height `j`, not below the floor, and
`clause` is its first one. -/
structure TopHandler (m : Machine) (error : Value) (j : Nat) (clause : CatchClause) : Prop where
  floor : m.floor ≤ j
  clause : m.stack.clauseFor? error j = some clause
  topmost : ∀ i, j < i → m.stack.clauseFor? error i = none

/-- The machine `y` is at the handler of the try construct at the height `j` of `m`. -/
structure Caught (m : Machine) (error : Value) (j : Nat) (clause : CatchClause) (blocks : List (Nat × Span))
    (y : Machine) : Prop where
  pending : y.pending = .settled error
  pc : y.pc = clause.handler
  /-- The running function is that of the nearest function frame below the construct. -/
  running : ∃ c, m.stack.callBelow? j = some (y.frame, c) ∧ c.function = y.function
  depth : y.stack.depth = j + 1
  below : ∀ i < j, (y.stack.get? i).map Frame.kind = (m.stack.get? i).map Frame.kind
  top : (y.stack.get? j).map Frame.kind = some (.attempt [] none)
  blocks : blocks = cleanupsFrom j m.stack.kinds
  regions : y.regions = m.regions

/-- No try construct of `m` above the floor has caught the error, and all frames above it are gone. -/
structure Escaped (m : Machine) (error : Value) (blocks : List (Nat × Span)) (y : Machine) : Prop where
  pending : y.pending = .active error
  depth : y.stack.depth = m.floor
  below : ∀ i < m.floor, (y.stack.get? i).map Frame.kind = (m.stack.get? i).map Frame.kind
  blocks : blocks = cleanupsFrom m.floor m.stack.kinds
  regions : y.regions = m.regions

/-- The search of `m` for a handler ends in `y`, after the given finally blocks. -/
inductive Unwinds (p : Program) (m : Machine) : List (Nat × Span) → Machine → Prop
  /-- No frame may be taken off. -/
  | atFloor (floor : m.stack.depth ≤ m.floor) : Unwinds p m [] m
  | ends {blocks x es y} (room : m.floor < m.stack.depth) (h : Continues p m blocks x)
      (move : x.advance p = ⟨es, .ok y⟩) (last : ∀ e range t, ¬ Begins p x e range t) : Unwinds p m blocks y

/-- The search of `m` for a handler of `error` has come down to the frames of `z`; the clauses of the frame
that it took off last are still to be asked. The frames above have no clause for the error, and `blocks` are
the finally ranges that they held. -/
structure Searching (m : Machine) (error : Value) (blocks : List (Nat × Span)) (z : Machine)
    (catches : List CatchClause) : Prop where
  pending : z.pending = .active error
  regions : z.regions = m.regions
  kinds : z.stack.kinds <:+ m.stack.kinds
  passed : ∀ i, z.stack.depth < i → m.stack.clauseFor? error i = none
  here : m.stack.clauseFor? error z.stack.depth = clauseFor? error catches
  blocks : blocks = cleanupsFrom z.stack.depth m.stack.kinds

/-- One transition of the search. -/
inductive SearchStep (m : Machine) (error : Value) (blocks : List (Nat × Span)) (z : Machine) :
    List Event → Machine → Prop
  | caught {j clause y} (handler : m.TopHandler error j clause) (caught : Caught m error j clause blocks y) :
      SearchStep m error blocks z [.caught error clause] y
  | escaped {y} (none : ∀ i, m.floor ≤ i → m.stack.clauseFor? error i = none) (escaped : Escaped m error blocks y) :
      SearchStep m error blocks z [] y
  /-- It comes to a finally block, which begins in `e`. -/
  | begins {e : Machine} {range scope catches} (lower : e.stack.depth < z.stack.depth)
      (searching : Searching m error (blocks ++ [(e.function, range)]) e catches) :
      SearchStep m error blocks z [.cleanupBegan e.function range e.stack.depth]
        (e.entered range (.unwind scope catches))

/-! ## One transition of the search -/

variable {p : Program} {m x y z : Machine} {error : Value} {es : List Event} {blocks : List (Nat × Span)}
  {catches : List CatchClause}

theorem handler?_eq_none (pending : z.pending = .active error) :
    z.handler? catches = none ↔ clauseFor? error catches = none := by
  simp [handler?, pending, Pending.error?, clauseFor?]

theorem clauseFor?_of_handler? (pending : z.pending = .active error) {clause : CatchClause} {e : Value}
    (h : z.handler? catches = some (clause, e)) : clauseFor? error catches = some clause ∧ e = error := by
  simp only [handler?, pending, Pending.error?, Option.bind_some, Option.map_eq_some_iff, Prod.mk.injEq] at h
  obtain ⟨c, hc, rfl, rfl⟩ := h
  exact ⟨hc, rfl⟩

namespace Searching

theorem below (h : Searching m error blocks z catches) (i : Nat) (hi : i < z.stack.depth) :
    (z.stack.get? i).map Frame.kind = (m.stack.get? i).map Frame.kind :=
  (Stack.map_kind_get?_of_suffix h.kinds hi).symm

theorem floor_eq (h : Searching m error blocks z catches) : z.floor = m.floor := by
  unfold floor; rw [h.regions]

/-- The search takes a frame off, whose clauses are to be asked next. -/
theorem pop {f : Frame} {rest : Stack} {w : Machine} (h : Searching m error blocks z catches)
    (asked : clauseFor? error catches = none) (top : z.stack = rest.push f) (stack : w.stack = rest)
    (pending : w.pending = z.pending) (regions : w.regions = z.regions) :
    Searching m error (blocks ++ f.kind.held rest.kinds) w f.kind.catches := by
  have hk : f.kind :: rest.kinds <:+ m.stack.kinds := kinds_top top ▸ h.kinds
  have hdepth : z.stack.depth = rest.depth + 1 := by rw [top, Stack.depth_push]
  subst stack
  constructor
  · rw [pending, h.pending]
  · rw [regions, h.regions]
  · exact (List.suffix_cons _ _).trans hk
  · intro i hi
    rcases Nat.lt_or_ge (w.stack.depth + 1) i with hlt | hge
    · exact h.passed i (by omega)
    · rw [show i = z.stack.depth by omega, h.here, asked]
  · have hf : (m.stack.get? w.stack.depth).map Frame.kind = some f.kind := by
      rw [← h.below _ (by omega), top, Stack.get?_push, if_pos rfl]; rfl
    rw [Stack.clauseFor?, hf]; rfl
  · rw [h.blocks, hdepth, ← Stack.length_kinds, cleanupsFrom_of_suffix hk]

/-- A clause of the frame that was taken off last catches the error. -/
theorem caught (h : Searching m error blocks z catches) (wf : z.WellFormed p) (owned : z.stack.kinds ≠ [])
    {clause : CatchClause} (found : clauseFor? error catches = some clause) (scope : Scope) :
    m.TopHandler error z.stack.depth clause ∧
      Caught m error z.stack.depth clause blocks (z.handling scope clause error) := by
  have hle : z.stack.depth ≤ m.stack.depth := by simpa using h.kinds.length_le
  refine ⟨⟨h.floor_eq ▸ wf.floor_le_depth, h.here.trans found, h.passed⟩, rfl, rfl, ?_, rfl, ?_, ?_, h.blocks, h.regions⟩
  · obtain ⟨c, hc, hf⟩ := wf.top owned
    refine ⟨c, ?_, hf⟩
    rw [Stack.callBelow?_eq_topCall? hle, ← Stack.length_kinds, bottom_of_suffix h.kinds]
    exact hc
  · intro i hi
    rw [← h.below i hi, handling, Stack.get?_push, if_neg (by omega)]
  · rw [handling, Stack.get?_push, if_pos rfl]; rfl

theorem escaped (h : Searching m error blocks z catches) (wf : z.WellFormed p)
    (asked : clauseFor? error catches = none) (empty : z.available = 0) :
    (∀ i, m.floor ≤ i → m.stack.clauseFor? error i = none) ∧ Escaped m error blocks z := by
  have hdepth : z.stack.depth = m.floor := by
    have := wf.floor_le_depth
    rw [← h.floor_eq]
    unfold available at empty
    omega
  refine ⟨?_, h.pending, hdepth, ?_, hdepth ▸ h.blocks, h.regions⟩
  · intro i hi
    rcases Nat.lt_or_eq_of_le hi with hlt | rfl
    · exact h.passed i (by omega)
    · rw [← hdepth, h.here, asked]
  · intro i hi
    exact h.below i (by omega)

end Searching

/-- The search, from the clauses that are to be asked next to the end of its transition. -/
theorem Carries.searchStep {t : Transfer} (go : z.Carries t es y) {scope : Scope} (ht : t = .unwind scope catches)
    (wf : z.WellFormed p) (owned : catches = [] ∨ z.stack.kinds ≠ []) (h : Searching m error blocks z catches) :
    SearchStep m error blocks z es y := by
  induction go generalizing scope catches blocks with
  | popped | left | returned | ended => cases ht
  | @caught z scope' catches' clause e found =>
    cases ht
    obtain ⟨hclause, rfl⟩ := clauseFor?_of_handler? h.pending found
    rcases owned with rfl | owned
    · cases hclause
    obtain ⟨handler, caught⟩ := h.caught wf owned hclause scope'
    exact .caught handler caught
  | uncaught asked empty =>
    cases ht
    obtain ⟨none, escaped⟩ := h.escaped wf ((handler?_eq_none h.pending).1 asked) empty
    exact .escaped none escaped
  | @cleanup z t catches' range f rest seeks room top kind =>
    subst ht
    have hasked := (handler?_eq_none h.pending).1 seeks
    obtain ⟨-, htop, -⟩ := wf.drop top (floor_lt_depth room) (by rw [kind]; rfl)
    have hpop := h.pop (w := { z with stack := rest }) hasked top rfl rfl rfl
    have hheld : f.kind.held rest.kinds = [(z.function, range)] := by
      rw [kind, FrameKind.held, htop.owner?]; rfl
    rw [hheld] at hpop
    rw [Transfer.past_unwind]
    have hlower : rest.depth < z.stack.depth := by rw [top, Stack.depth_push]; omega
    exact SearchStep.begins (e := { z with stack := rest }) hlower hpop
  | @pass z t es y f rest seeks room top passes go ih =>
    subst ht
    have hasked := (handler?_eq_none h.pending).1 seeks
    obtain ⟨hwf, htop, -⟩ := wf.drop top (floor_lt_depth room) passes.call?
    have hheld : f.kind.held rest.kinds = [] := by
      cases hk : f.kind with
      | attempt catches' cleanup =>
        rw [hk] at passes
        cases cleanup with
        | none => rfl
        | some range => exact passes.elim
      | _ => rfl
    have hpop := h.pop (w := { z with stack := rest }) hasked top rfl rfl rfl
    rw [hheld, List.append_nil] at hpop
    have hlower : rest.depth < z.stack.depth := by rw [top, Stack.depth_push]; omega
    cases ih (Transfer.past_unwind ..) hwf (.inr htop.ne_nil) hpop with
    | caught handler caught => exact .caught handler caught
    | escaped none escaped => exact .escaped none escaped
    | begins lower searching => exact .begins (Nat.lt_trans lower hlower) searching
  | @abort z scope' catches' es y f rest call seeks room top kind go ih =>
    cases ht
    have hasked := (handler?_eq_none h.pending).1 seeks
    have hpop := h.pop (w := { z with stack := rest }.goBack call.caller) hasked top (goBack_stack _ _)
      (by cases call.caller <;> rfl) (goBack_regions _ _)
    rw [kind] at hpop
    simp only [FrameKind.held, List.append_nil] at hpop
    have hlower : rest.depth < z.stack.depth := by rw [top, Stack.depth_push]; omega
    cases ih rfl (wf.abort top (floor_lt_depth room) kind) (.inl rfl) hpop with
    | caught handler caught => exact .caught handler caught
    | escaped none escaped => exact .escaped none escaped
    | begins lower searching =>
      rw [goBack_stack] at lower
      exact .begins (Nat.lt_trans lower hlower) searching

/-! ## The whole search -/

theorem unwind_ok : ∀ (n : Nat) (m : Machine), ∃ es y, m.unwind n = ⟨es, .ok y⟩
  | 0, m => ⟨_, _, rfl⟩
  | n + 1, m => by
    unfold unwind
    split
    · exact ⟨_, _, rfl⟩
    · dsimp only
      split
      · exact ⟨_, _, rfl⟩
      · split
        · exact ⟨_, _, rfl⟩
        · exact unwind_ok n _
      all_goals exact unwind_ok n _

theorem resume_unwind_ok (z : Machine) (scope : Scope) (catches : List CatchClause) :
    ∃ es y, z.resume (.unwind scope catches) = ⟨es, .ok y⟩ := by
  unfold resume
  dsimp only
  split
  · exact ⟨_, _, rfl⟩
  · exact unwind_ok ..

theorem resume_unwind_nil (z : Machine) : z.resume (.unwind .empty []) = z.unwind z.available := by
  unfold resume
  dsimp only
  rw [handler?_nil]

theorem advance_active (active : m.pending.isActive = true) (room : m.floor < m.stack.depth) :
    m.advance p = m.resume (.unwind .empty []) := by
  rw [resume_unwind_nil]
  unfold advance available
  unfold floor at room ⊢
  cases hr : m.regions with
  | nil => rw [if_pos active, Nat.sub_zero]
  | cons r outer =>
    rw [hr] at room
    dsimp only at room ⊢
    rw [if_pos active, if_neg (Nat.not_le.2 room)]

/-- The transition of `x` carries on the search of `m`, at the frames of `z`. -/
structure Searches (p : Program) (m : Machine) (error : Value) (blocks : List (Nat × Span)) (x z : Machine)
    (catches : List CatchClause) : Prop where
  reach : Reachable p x
  running : x.halted = false
  advance : ∃ scope, x.advance p = z.resume (.unwind scope catches)
  wellFormed : z.WellFormed p
  owned : catches = [] ∨ z.stack.kinds ≠ []
  searching : Searching m error blocks z catches

namespace Searches

theorem begin (valid : p.Valid) (reach : Reachable p m) (running : m.halted = false)
    (pending : m.pending = .active error) (room : m.floor < m.stack.depth) : Searches p m error [] m m [] := by
  refine ⟨reach, running, ⟨_, advance_active (by rw [pending]; rfl) room⟩, reach.wellFormed valid, .inl rfl, pending, rfl,
    List.suffix_rfl, ?_, ?_, ?_⟩
  · intro i hi
    exact Stack.clauseFor?_of_le (Nat.le_of_lt hi)
  · exact Stack.clauseFor?_of_le (Nat.le_refl _)
  · rw [← Stack.length_kinds, cleanupsFrom_length]

theorem step (h : Searches p m error blocks x z catches) :
    ∃ es y, x.advance p = ⟨es, .ok y⟩ ∧ SearchStep m error blocks z es y := by
  obtain ⟨scope, advance⟩ := h.advance
  obtain ⟨es, y, hy⟩ := resume_unwind_ok z scope catches
  exact ⟨es, y, advance.trans hy, (resume_carries hy).searchStep rfl h.wellFormed h.owned h.searching⟩

/-- When a block that the search began is at its end, the search goes on below the frame of the block. -/
theorem next (h : Searches p m error blocks x z catches) (valid : p.Valid) {e : Machine} {range : Span}
    {t : Transfer} (begins : Begins p x e range t) (completes : Completes p e range t y) :
    ∃ z' catches', Searches p m error (blocks ++ [(e.function, range)]) y z' catches' ∧
      z'.stack.depth < z.stack.depth := by
  obtain ⟨es, w, move, step⟩ := h.step
  obtain ⟨hes, rfl⟩ := begins.move move
  obtain ⟨hy, running, z', advance, hwf, hne, back⟩ :=
    completes.resumes valid (h.reach.advance h.running move)
  generalize hw : e.entered range t = w at step
  cases step with
  | caught | escaped => simp at hes
  | @begins e' range' scope catches' lower searching =>
    obtain ⟨rfl, rfl, rfl⟩ := entered_inj hw
    have hdepth : z'.stack.depth = e.stack.depth := by rw [← Stack.length_kinds, back.kinds, Stack.length_kinds]
    refine ⟨z', catches', ⟨hy, running, ⟨scope, advance⟩, hwf, .inr hne, ?_⟩, hdepth ▸ lower⟩
    constructor
    · rw [back.pending, searching.pending]
    · rw [back.regions, searching.regions]
    · rw [back.kinds]; exact searching.kinds
    · rw [hdepth]; exact searching.passed
    · rw [hdepth]; exact searching.here
    · rw [hdepth]; exact searching.blocks

end Searches

/-- Where a search for a handler is to end: at the topmost one, and with every frame above the floor gone if
there is none. -/
structure HandlerSelected (m : Machine) (error : Value) (blocks : List (Nat × Span)) (y : Machine) : Prop where
  caught : ∀ j clause, m.TopHandler error j clause → Caught m error j clause blocks y
  escaped : (∀ i, m.floor ≤ i → m.stack.clauseFor? error i = none) → Escaped m error blocks y

theorem TopHandler.unique {i j : Nat} {c d : CatchClause} (h : m.TopHandler error i c)
    (h' : m.TopHandler error j d) : i = j ∧ c = d := by
  have hij : i = j := by
    rcases Nat.lt_trichotomy i j with hlt | heq | hgt
    · have := h.topmost j hlt
      rw [h'.clause] at this; cases this
    · exact heq
    · have := h'.topmost i hgt
      rw [h.clause] at this; cases this
  subst hij
  have := h.clause
  rw [h'.clause] at this
  cases this
  exact ⟨rfl, rfl⟩

/-- The search takes a frame off for each of its blocks, so it comes to an end. -/
theorem Searches.ends (h : Searches p m error blocks x z catches) (valid : p.Valid)
    (room : m.floor < m.stack.depth) (continues : Continues p m blocks x) (complete : CleanupsComplete p m) :
    ∃ blocks y, Unwinds p m blocks y ∧ HandlerSelected m error blocks y := by
  induction hn : z.stack.depth using Nat.strongRecOn generalizing blocks x z catches with
  | ind n ih =>
    obtain ⟨es, y, move, step⟩ := h.step
    cases step with
    | @caught j clause y handler caught =>
      refine ⟨blocks, y, .ends room continues move ?_, ?_, ?_⟩
      · intro e range t begins
        simpa using (begins.move move).1
      · intro i c top
        obtain ⟨rfl, rfl⟩ := handler.unique top
        exact caught
      · intro none
        have := none j handler.floor
        rw [handler.clause] at this; cases this
    | @escaped y none escaped =>
      refine ⟨blocks, y, .ends room continues move ?_, ?_, fun _ => escaped⟩
      · intro e range t begins
        simpa using (begins.move move).1
      · intro i c top
        have := none i top.floor
        rw [top.clause] at this; cases this
    | @begins e range scope catches' lower searching =>
      have begins : Begins p x e range (.unwind scope catches') := ⟨[], move⟩
      obtain ⟨w, completes⟩ := complete continues begins
      obtain ⟨z', catches'', hnext, hlt⟩ := h.next valid begins completes
      exact ih z'.stack.depth (hn ▸ hlt) hnext (continues.block begins completes) rfl

/-- In every reachable machine with an error in search of a handler, at whatever floor: if the finally blocks
that the search begins come to their ends, so does the search, and the topmost handler is selected. -/
theorem handler_selected {p : Program} {m : Machine} {error : Value} (valid : p.Valid) (reach : Reachable p m)
    (pending : m.pending = .active error) (complete : m.floor < m.stack.depth → CleanupsComplete p m) :
    ∃ blocks y, Unwinds p m blocks y ∧ HandlerSelected m error blocks y := by
  rcases Nat.lt_or_ge m.floor m.stack.depth with room | floor
  · have running : m.halted = false := by
      cases hh : m.halted with
      | false => rfl
      | true =>
        have := Stack.kinds_eq_nil_iff.2 hh
        rw [← Stack.length_kinds, this] at room
        simp at room
    exact (Searches.begin valid reach running pending room).ends valid room .begin (complete room)
  · have wf := reach.wellFormed valid
    have hdepth : m.stack.depth = m.floor := Nat.le_antisymm floor wf.floor_le_depth
    refine ⟨[], m, .atFloor floor, ?_, fun _ => ⟨pending, hdepth, fun _ _ => rfl, ?_, rfl⟩⟩
    · intro j clause top
      have : m.stack.clauseFor? error j = none := Stack.clauseFor?_of_le (Nat.le_trans floor top.floor)
      rw [top.clause] at this; cases this
    · rw [← hdepth, ← Stack.length_kinds, cleanupsFrom_length]

/-- A program in which a called function throws an integer that its own clause does not accept. Both try
constructs have finally blocks. -/
def caughtByCaller : Program :=
  ⟨#[⟨"main", 1, #[.assign 0 (.function 1), .pushTry [⟨.kind .integer, 5⟩] (some ⟨4, 5⟩), .call 1 0 [], .nop, .nop,
      .popFrame]⟩,
    ⟨"f", 0, #[.pushTry [⟨.kind .string, 3⟩] (some ⟨3, 4⟩), .assign 2 (.integer 7), .throw 2, .nop]⟩]⟩

/-- The search runs both blocks, each in its own function, and ends at the handler of the caller. -/
theorem handler_selected_caller : ∃ m, caughtByCaller.Valid ∧ Reachable caughtByCaller m ∧
    m.pending = .active (.integer 7) ∧ CleanupsComplete caughtByCaller m ∧
    ∃ y, Unwinds caughtByCaller m [(1, ⟨3, 4⟩), (0, ⟨4, 5⟩)] y ∧
      Caught m (.integer 7) 1 ⟨.kind .integer, 5⟩ [(1, ⟨3, 4⟩), (0, ⟨4, 5⟩)] y := by
  have valid : caughtByCaller.Valid := by decide
  let assigned := (((ready caughtByCaller).started []).storeComputed 0 (.pure (.function ⟨1, []⟩))).next
  let called := ((assigned.pushFrame (.attempt [⟨.kind .integer, 5⟩] (some ⟨4, 5⟩))).next).calling 1 1 []
  let pushed := (called.pushFrame (.attempt [⟨.kind .string, 3⟩] (some ⟨3, 4⟩))).next
  let thrown := ((pushed.storeComputed 2 (.pure (.integer 7))).next).throw (.integer 7)
  let inner := { thrown with stack := called.stack }
  let outer := { inner.goBack (some ⟨0, 0, 2⟩) with stack := assigned.stack }
  have started : Reachable caughtByCaller ((ready caughtByCaller).started []) := .start .ready rfl
  have reach : Reachable caughtByCaller thrown :=
    (((((started.advance rfl rfl).advance rfl rfl).advance rfl rfl).advance rfl rfl).advance rfl rfl).advance rfl rfl
  have first : Completes caughtByCaller inner ⟨3, 4⟩ (.unwind .empty [⟨.kind .string, 3⟩])
      (inner.entered ⟨3, 4⟩ (.unwind .empty [⟨.kind .string, 3⟩])).next := by
    refine ⟨.step .begin ?_ rfl, _, .completed rfl rfl rfl (by decide) rfl⟩
    rintro exit z (⟨regions, settled, frame, stop⟩ | ⟨regions, active⟩)
    · cases regions; exact absurd stop (by decide)
    · cases active
  have second : Completes caughtByCaller outer ⟨4, 5⟩ (.unwind .empty [⟨.kind .integer, 5⟩])
      (outer.entered ⟨4, 5⟩ (.unwind .empty [⟨.kind .integer, 5⟩])).next := by
    refine ⟨.step .begin ?_ rfl, _, .completed rfl rfl rfl (by decide) rfl⟩
    rintro exit z (⟨regions, settled, frame, stop⟩ | ⟨regions, active⟩)
    · cases regions; exact absurd stop (by decide)
    · cases active
  have complete : CleanupsComplete caughtByCaller thrown := by
    refine .block (e := inner) ⟨[], rfl⟩ first (.block (e := outer) ⟨[], rfl⟩ second (.none ?_))
    intro e range t begins
    have event : .cleanupBegan e.function range e.stack.depth ∈
        [Event.caught (.integer 7) ⟨.kind .integer, 5⟩] := (begins.move rfl).1
    simp at event
  obtain ⟨blocks, y, unwinds, selected⟩ := handler_selected valid reach rfl fun _ => complete
  have top : TopHandler thrown (.integer 7) 1 ⟨.kind .integer, 5⟩ := by
    refine ⟨Nat.zero_le _, rfl, ?_⟩
    intro i hi
    rcases Nat.lt_or_ge i 4 with hlt | hge
    · obtain rfl | rfl : i = 2 ∨ i = 3 := by omega
      · rfl
      · rfl
    · exact Stack.clauseFor?_of_le hge
  have caught := selected.caught 1 _ top
  obtain rfl : blocks = [(1, ⟨3, 4⟩), (0, ⟨4, 5⟩)] := caught.blocks
  exact ⟨thrown, valid, reach, rfl, complete, y, unwinds, caught⟩

end Machine

end SlotVM
