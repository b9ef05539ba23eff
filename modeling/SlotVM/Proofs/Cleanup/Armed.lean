/-
Armed tries: the try constructs whose clauses are still to be asked for a handler. A construct is armed while
its frame holds clauses, and also while its finally block runs in the search for a handler, after which they
are asked. `Move.asks`: a `PushTry` arms one, and any other transition disarms some of the innermost, one of
which resumes if the transition ends at a handler.
-/
import SlotVM.Proofs.Cleanup.Balance

namespace SlotVM

/-! ## Clauses that frames and regions hold -/

/-- The function and the clauses of an executed `PushTry`. -/
def Event.executedTry? : Event → Option (Nat × List CatchClause)
  | .executing function _ (.pushTry catches _) => some (function, catches)
  | _ => none

/-- The clause that the machine goes on at. -/
def Event.caughtClause? : Event → Option CatchClause
  | .caught _ clause => some clause
  | _ => none

/-- The `PushTry` instructions that were executed, each with its function and its clauses. -/
def executedTries (log : List Event) : List (Nat × List CatchClause) := log.filterMap Event.executedTry?

/-- The clauses that caught an error. -/
def caughtClauses (log : List Event) : List CatchClause := log.filterMap Event.caughtClause?

theorem executedTries_append (log log' : List Event) :
    executedTries (log ++ log') = executedTries log ++ executedTries log' := List.filterMap_append

theorem caughtClauses_append (log log' : List Event) :
    caughtClauses (log ++ log') = caughtClauses log ++ caughtClauses log' := List.filterMap_append

/-- The clauses that a frame still holds, with the function that owns the frame. -/
def FrameKind.armed (below : List FrameKind) : FrameKind → List (Nat × List CatchClause)
  | .attempt (c :: cs) _ => (owner? below).toList.map (·, c :: cs)
  | _ => []

/-- The clauses that are to be asked after a finally block of `function` that runs in the search for a
handler. -/
def Transfer.armed (function : Nat) : Transfer → List (Nat × List CatchClause)
  | .unwind _ (c :: cs) => [(function, c :: cs)]
  | _ => []

/-- The clauses that frames from the height `n` up still hold. -/
def armedAbove (n : Nat) : List FrameKind → List (Nat × List CatchClause)
  | [] => []
  | k :: below => if n ≤ below.length then k.armed below ++ armedAbove n below else []

/-- The clauses that are still to be asked for a handler, by the height of the try constructs: those of
the frames above the floor of a region, then those of the construct whose finally block the region is. -/
def armedIn (ks : List FrameKind) : List Region → List (Nat × List CatchClause)
  | [] => armedAbove 0 ks
  | r :: outer => armedAbove r.floor ks ++ (r.transfer.armed r.function ++ armedIn (bottom r.floor ks) outer)

theorem armedAbove_length (ks : List FrameKind) : armedAbove ks.length ks = [] := by
  cases ks with
  | nil => rfl
  | cons k below => rw [armedAbove, if_neg (by simp)]

theorem armedIn_cons (k : FrameKind) {ks : List FrameKind} {regions : List Region}
    (h : ∀ r ∈ regions, r.floor ≤ ks.length) :
    armedIn (k :: ks) regions = k.armed ks ++ armedIn ks regions := by
  cases regions with
  | nil => simp [armedIn, armedAbove]
  | cons r outer =>
    have hr := h r (List.mem_cons_self ..)
    simp only [armedIn]
    rw [armedAbove, if_pos hr, bottom_cons k hr, List.append_assoc]

theorem armedIn_region {ks : List FrameKind} {r : Region} (floor : r.floor = ks.length) (outer : List Region) :
    armedIn ks (r :: outer) = r.transfer.armed r.function ++ armedIn ks outer := by
  simp only [armedIn]
  rw [floor, armedAbove_length, bottom_length, List.nil_append]

theorem FrameKind.armed_attempt {below : List FrameKind} {function frame : Nat}
    (top : AtTop below function frame) (catches : List CatchClause) (cleanup : Option Span) (scope : Scope) :
    (FrameKind.attempt catches cleanup).armed below = (Transfer.unwind scope catches).armed function := by
  cases catches with
  | nil => rfl
  | cons c cs => simp [FrameKind.armed, Transfer.armed, top.owner?]

/-- A transfer keeps at most the clauses of a frame that it takes off. -/
theorem Transfer.past_armed {f : Frame} {below : List FrameKind} {function frame : Nat} (t : Transfer)
    (top : AtTop below function frame) :
    (t.past f).armed function = [] ∨ (t.past f).armed function = f.kind.armed below := by
  cases t with
  | unwind scope catches =>
    cases hf : f.kind with
    | attempt catches' cleanup =>
      right
      rw [FrameKind.armed_attempt top catches' cleanup f.scope]
      simp [Transfer.past, hf]
    | _ => left; simp [Transfer.past, hf, Transfer.armed]
  | exitLoop exit depth remaining =>
    left; cases remaining <;> cases hf : f.kind <;> simp [Transfer.past, hf, Transfer.armed]
  | pop => left; rfl
  | ret value explicit => left; rfl

/-! ## Armed tries -/

namespace Machine

variable {p : Program} {m m' : Machine} {es : List Event} {tries : List (Nat × List CatchClause)}

/-- The clauses that are still to be asked for a handler, the innermost first. -/
def armedTries (m : Machine) : List (Nat × List CatchClause) := armedIn m.stack.kinds m.regions

/-- What a transition to `m'` that executes no `PushTry` does to the armed tries. -/
inductive Asks (tries : List (Nat × List CatchClause)) (es : List Event) (m' : Machine) : Prop
  /-- It ends at a handler: the tries `given` are given up, the next one resumes, and the others stay armed.
  All that is left of the one that resumes is a frame without clauses and without a finally block. -/
  | resumes {catches clause scope} (given : List (Nat × List CatchClause)) (executed : executedTries es = [])
      (caught : caughtClauses es = [clause])
      (armed : tries = given ++ (m'.function, catches) :: m'.armedTries) (clause_mem : clause ∈ catches)
      (top : m'.stack.top? = some ⟨scope, .attempt [] none⟩)
  /-- It ends at no handler. -/
  | disarms (executed : executedTries es = []) (caught : caughtClauses es = [])
      (armed : m'.armedTries <:+ tries)

theorem Asks.mono {tries' : List (Nat × List CatchClause)} (h : Asks tries es m') (hs : tries <:+ tries') :
    Asks tries' es m' := by
  cases h with
  | resumes given executed caught armed clause_mem top =>
    obtain ⟨more, rfl⟩ := hs
    exact .resumes (more ++ given) executed caught (by rw [armed, List.append_assoc]) clause_mem top
  | disarms executed caught armed => exact .disarms executed caught (armed.trans hs)

theorem Asks.cons {e : Event} (h : Asks tries es m') (executed : e.executedTry? = none)
    (caught : e.caughtClause? = none) : Asks tries (e :: es) m' := by
  have he : executedTries (e :: es) = executedTries es := List.filterMap_cons_none executed
  have hc : caughtClauses (e :: es) = caughtClauses es := List.filterMap_cons_none caught
  cases h with
  | resumes given executed caught armed clause_mem top =>
    exact .resumes given (he.trans executed) (hc.trans caught) armed clause_mem top
  | disarms executed caught armed => exact .disarms (he.trans executed) (hc.trans caught) armed

theorem armedTries_congr (kinds : m'.stack.kinds = m.stack.kinds) (regions : m'.regions = m.regions) :
    m'.armedTries = m.armedTries := by
  unfold armedTries; rw [kinds, regions]

theorem WellFormed.armedTries_cons (wf : m.WellFormed p) {x : Machine} {k : FrameKind}
    (kinds : x.stack.kinds = k :: m.stack.kinds) (regions : x.regions = m.regions) :
    x.armedTries = k.armed m.stack.kinds ++ m.armedTries := by
  unfold armedTries
  rw [kinds, regions]
  refine armedIn_cons k ?_
  intro r hr
  rw [Stack.length_kinds]
  exact Nat.le_trans (wf.floor_le r hr) wf.floor_le_depth

theorem WellFormed.armedTries_push {f : Frame} {rest : Stack} (wf : m.WellFormed p)
    (top : m.stack = rest.push f) (room : m.floor < m.stack.depth) :
    m.armedTries = f.kind.armed rest.kinds ++ { m with stack := rest }.armedTries := by
  unfold armedTries
  rw [kinds_top top]
  refine armedIn_cons f.kind ?_
  intro r hr
  have := wf.floor_le r hr
  rw [top, Stack.depth_push] at room
  rw [Stack.length_kinds]; omega

/-- When a finally block begins, the clauses that its transfer is still to ask take the place of those of
the frame. -/
theorem armedTries_entered (m : Machine) (range : Span) (t : Transfer) :
    (m.entered range t).armedTries = t.armed m.function ++ m.armedTries :=
  armedIn_region (Stack.length_kinds _).symm m.regions

theorem armed_past_suffix {f : Frame} {rest : Stack} (t : Transfer) (wf : m.WellFormed p)
    (top : m.stack = rest.push f) (room : m.floor < m.stack.depth) (kind : f.kind.call? = none) :
    (t.past f).armed m.function ++ { m with stack := rest }.armedTries <:+ m.armedTries := by
  obtain ⟨-, htop, -⟩ := wf.drop top room kind
  rw [wf.armedTries_push top room]
  rcases t.past_armed (f := f) htop with h | h
  · rw [h]
    exact List.suffix_append _ _
  · exact h ▸ List.suffix_rfl

/-- Carrying out a transfer, together with the clauses that it is still to ask. -/
theorem Carries.asks {t : Transfer} (go : m.Carries t es m') (wf : m.WellFormed p) :
    Asks (t.armed m.function ++ m.armedTries) es m' := by
  induction go with
  | popped | uncaught => exact .disarms rfl rfl (List.suffix_append _ _)
  | @caught m scope catches clause error h =>
    have hmem := handler?_mem h
    have harmed := wf.armedTries_cons (x := m.handling scope clause error) rfl rfl
    obtain ⟨c, cs, rfl⟩ := List.exists_cons_of_ne_nil (List.ne_nil_of_mem hmem)
    exact .resumes [] rfl rfl (by rw [harmed]; rfl) hmem rfl
  | cleanup seeks room top kind =>
    refine .disarms rfl rfl ?_
    rw [armedTries_entered]
    exact (armed_past_suffix _ wf top (floor_lt_depth room) (by rw [kind]; rfl)).trans
      (List.suffix_append _ _)
  | pass seeks room top passes go ih =>
    refine (ih (wf.drop top (floor_lt_depth room) passes.call?).1).mono ?_
    exact (armed_past_suffix _ wf top (floor_lt_depth room) passes.call?).trans (List.suffix_append _ _)
  | @abort m scope catches es m' f rest call seeks room top kind go ih =>
    refine (ih (wf.abort top (floor_lt_depth room) kind)).mono ?_
    have harmed : ({ m with stack := rest }.goBack call.caller).armedTries =
        { m with stack := rest }.armedTries :=
      armedTries_congr (by rw [goBack_stack]) (goBack_regions _ _)
    rw [harmed, wf.armedTries_push top (floor_lt_depth room), ← List.append_assoc]
    exact List.suffix_append _ _
  | left room top | returned room top | ended room top =>
    refine .disarms rfl rfl ?_
    rw [wf.armedTries_push top (floor_lt_depth room), ← List.append_assoc]
    exact List.suffix_append _ _

/-- An instruction other than a `PushTry`. -/
theorem Performs.asks {i : Instruction} (go : m.Performs p i es m') (wf : m.WellFormed p)
    (other : ∀ catches cleanup, i ≠ .pushTry catches cleanup) :
    Asks m.armedTries (.executing m.function m.pc i :: es) m' := by
  have hi : (Event.executing m.function m.pc i).executedTry? = none := by
    cases i with
    | pushTry catches cleanup => exact absurd rfl (other catches cleanup)
    | _ => rfl
  refine Asks.cons ?_ hi rfl
  have same : ∀ {x : Machine}, x.stack.kinds = m.stack.kinds → x.regions = m.regions →
      Asks m.armedTries [] x := by
    intro x kinds regions
    exact .disarms rfl rfl (armedTries_congr kinds regions ▸ List.suffix_rfl)
  cases go with
  | assign | setField | setIndex | setConstant | jump | nop => exact same rfl rfl
  | raise | throw => exact .disarms rfl rfl List.suffix_rfl
  | branch | branchConstant => split <;> exact same rfl rfl
  | bind h => exact same (Stack.bind_kinds h) rfl
  | @call target ref args function values h =>
    have harmed := wf.armedTries_cons (x := m.calling target function values) rfl rfl
    exact .disarms rfl rfl (harmed ▸ List.suffix_rfl)
  | @push i kind h =>
    have hk : kind.armed m.stack.kinds = [] := by
      cases i <;> cases h
      · rfl
      · rfl
      · exact absurd rfl (other _ _)
    have harmed := wf.armedTries_cons (x := (m.pushFrame kind).next) (k := kind) rfl rfl
    rw [hk] at harmed
    exact .disarms rfl rfl (harmed ▸ List.suffix_rfl)
  | pop room top kind =>
    refine .disarms rfl rfl ?_
    rw [wf.armedTries_push top (by omega)]
    exact List.suffix_append _ _
  | popCleanup room top kind =>
    refine .disarms rfl rfl ?_
    rw [armedTries_entered, wf.armedTries_push top (by omega)]
    exact List.suffix_append _ _
  | ret h go => exact go.asks (wf.of_eq rfl rfl rfl rfl wf.pc)
  | exitLoop go => exact go.asks wf

/-- At the end of a finally block, the clauses that its transfer is still to ask come first. -/
theorem Ends.armedTries {r : Region} {outer : List Region} {exit : RegionExit} {m₁ : Machine}
    (ends : m.Ends r outer exit m₁) (wf : m.WellFormed p) :
    m.armedTries = r.transfer.armed m₁.function ++ m₁.armedTries := by
  unfold Machine.armedTries
  rw [ends.regions, ends.stack_eq, ends.regions_eq, (ends.registers wf).1]
  exact armedIn_region (by rw [Stack.length_kinds, ends.depth_eq wf]) outer

/-- What a transition does to the armed tries. -/
theorem Move.asks (move : m.Move p es m') (wf : m.WellFormed p) (running : m.halted = false) :
    Asks m.armedTries es m' ∨
    ∃ catches, executedTries es = [(m.function, catches)] ∧ caughtClauses es = [] ∧
      m'.armedTries = (Transfer.unwind .empty catches).armed m.function ++ m.armedTries := by
  have ended : ∀ {r outer exit m₁}, m.Ends r outer exit m₁ → ∀ {t : Transfer},
      t.armed m₁.function = r.transfer.armed m₁.function ∨ t.armed m₁.function = [] →
      ∀ {es m'}, Asks (t.armed m₁.function ++ m₁.armedTries) es m' → Asks m.armedTries es m' := by
    intro r outer exit m₁ ends t ht es m' h
    rw [ends.armedTries wf]
    rcases ht with ht | ht <;> rw [ht] at h
    · exact h
    · exact h.mono (List.suffix_append _ _)
  cases move with
  | @execute f i es m' runs function code go =>
    by_cases other : ∀ catches cleanup, i ≠ .pushTry catches cleanup
    · exact .inl (go.asks wf other)
    · have : ∃ catches cleanup, i = .pushTry catches cleanup := by simpa using other
      obtain ⟨catches, cleanup, rfl⟩ := this
      cases go with
      | raise h => cases h
      | push h =>
        cases h
        refine .inr ⟨catches, rfl, rfl, ?_⟩
        rw [← FrameKind.armed_attempt (wf.top_of_running running) catches cleanup .empty]
        exact wf.armedTries_cons rfl rfl
  | fallOff runs function code go =>
    exact .inl (.cons (go.asks (wf.of_eq rfl rfl rfl rfl wf.pc)) rfl rfl)
  | search active room go => exact .inl (go.asks wf)
  | complete ends go => exact .inl (ended ends (.inl rfl) (go.asks (ends.wellFormed wf)))
  | abandonSearch ends transfer go =>
    exact .inl (.cons (ended ends (.inr rfl) (go.asks (ends.wellFormed wf))) rfl rfl)
  | abandonReturn ends transfer | abandon ends transfer =>
    exact .inl (ended ends (t := .pop) (.inr rfl) (.disarms rfl rfl List.suffix_rfl))

end Machine

end SlotVM
