/-
Which error a program reads. The pending error is that of the most recent throw, where throws inside of a finally
block count no more once the block has come to its end. `pending_recent` says it for every moment of a run, so a
`ReadError` stores this error, and faults if there is none.
-/
import SlotVM.Proofs.Cleanup.Origin
import SlotVM.Proofs.Machine.Holding

namespace SlotVM.Machine

/-! ## Throws and blocks of a run, by the numbers of its transitions -/

/-- The machine is at an instruction that throws: a `Throw`, or one that fails so that the program can catch it. -/
inductive Throws (p : Program) (x : Machine) : Value → Prop
  | instruction {ref v} (runs : x.Runs) (code : p.At x.function x.pc (.throw ref)) (value : x.slots.read ref = .ok v) :
      Throws p x v
  | failure {i failure} (runs : x.Runs) (code : p.At x.function x.pc i) (raises : x.Raises failure i) :
      Throws p x (.string failure.message)

section
variable (p : Program) (m : Machine)

/-- Transition `i` throws `v`. -/
def ThrowsAt (i : Nat) (v : Value) : Prop := ∃ x, m.after? p i = some x ∧ Throws p x v

/-- Transition `b` begins a block, the region `r` inside of `outer`, and no transition between `b` and `n` ends it. -/
structure OpenAt (b n : Nat) (r : Region) (outer : List Region) : Prop where
  begins : ∃ x e range t, m.after? p b = some x ∧ Begins p x e range t ∧ r = e.region range t ∧ outer = e.regions
  before : b < n
  inside : ∀ k x, b < k → k < n → m.after? p k = some x → ∀ exit z, ¬ x.Ends r outer exit z

/-- Transition `c` finds the block that transition `b` began at its end, without an error that it did not catch. -/
def Completed (b c : Nat) : Prop :=
  ∃ r outer x z, OpenAt p m b c r outer ∧ m.after? p c = some x ∧ x.Ends r outer .completed z

/-- Transition `i` is one of a block that was completed in the first `n` transitions. -/
def Ignored (n i : Nat) : Prop := ∃ b c, b < i ∧ i < c ∧ c < n ∧ Completed p m b c

/-- The value of the most recent throw among the first `n` transitions that is not ignored, if there is one. -/
def Recent (n : Nat) : Option Value → Prop
  | none => ∀ i v, i < n → ThrowsAt p m i v → Ignored p m n i
  | some v => ∃ i, i < n ∧ ThrowsAt p m i v ∧ ¬ Ignored p m n i ∧
      ∀ j w, i < j → j < n → ThrowsAt p m j w → Ignored p m n j

/-- What a program reads as the pending error in `x`, the machine after `n` transitions. -/
structure ReadsRecent (n : Nat) (x : Machine) : Prop where
  pending : ∀ error, x.pending.error? = error ↔ Recent p m n error
  stores : ∀ target v, x.Runs → p.At x.function x.pc (.assign target .error) → Recent p m n (some v) →
    x.advance p = ⟨[.executing x.function x.pc (.assign target .error)], .ok (x.store target v).next⟩
  faults : ∀ target, x.Runs → p.At x.function x.pc (.assign target .error) →
    ((∃ f, (x.advance p).result = .error f) ↔ Recent p m n none)

end

variable {p : Program} {m x y z : Machine} {es : List Event} {r : Region} {outer : List Region} {n b c i : Nat}

/-! ## What a transition does to the pending error -/

theorem Throws.runs {v : Value} (h : Throws p x v) : x.Runs := by
  cases h <;> assumption

theorem Throws.advance {v : Value} (h : Throws p x v) : ∃ es, x.advance p = ⟨es, .ok (x.throw v)⟩ := by
  rw [h.runs.advance]
  unfold execute
  cases h with
  | instruction runs code value =>
    obtain ⟨f, hf, hi⟩ := code
    rw [hf]
    dsimp only
    rw [hi]
    dsimp only [perform]
    rw [value]
    exact ⟨_, rfl⟩
  | @failure i failure runs code raises =>
    obtain ⟨f, hf, hi⟩ := code
    rw [hf]
    dsimp only
    rw [hi]
    cases i with
    | assign | setField | setIndex | setConstant =>
      dsimp only [perform]
      rw [show _ = _ from raises]
      exact ⟨_, rfl⟩
    | _ => cases raises

theorem Throws.eq_throw {v : Value} (h : Throws p x v) (move : x.advance p = ⟨es, .ok y⟩) : y = x.throw v := by
  obtain ⟨es', move'⟩ := h.advance
  rw [move] at move'
  injection move' with _ same
  exact Except.ok.inj same

theorem Carries.error?_eq {t : Transfer} (go : x.Carries t es y) : y.pending.error? = x.pending.error? := by
  induction go with
  | caught h => exact (handler?_pending h).symm
  | cleanup => exact Pending.error?_settle _
  | pass seeks room top passes go ih => exact ih
  | @abort m scope catches es m' f rest call seeks room top kind go ih =>
    rw [ih]
    cases call.caller <;> rfl
  | popped | uncaught | left | returned | ended => rfl

theorem Ends.error_active (ends : x.Ends r outer .threw z) : x.pending.isActive = true ∧ z.pending = x.pending := by
  cases ends with
  | threw regions active depth => exact ⟨active, rfl⟩

theorem Ends.not_completed (ends : x.Ends r outer .threw z) (q : Region) (qs : List Region) (w : Machine) :
    ¬ x.Ends q qs .completed w := by
  rintro (⟨regions, settled⟩)
  rw [ends.error_active.1] at settled
  cases settled

/-- A transition that throws nothing keeps the pending error, unless it completes a block. Then it brings back the
error that was pending when the block began. -/
theorem Move.error?_eq (move : x.Move p es y) (calm : ∀ v, ¬ Throws p x v) :
    (∃ r outer z, x.Ends r outer .completed z ∧ y.pending.error? = r.pending.error?) ∨
      (∀ r outer z, ¬ x.Ends r outer .completed z) ∧ y.pending.error? = x.pending.error? := by
  cases move with
  | @execute f i es m' runs function code go =>
    refine .inr ⟨fun r outer z => runs.inside_all r outer .completed z, ?_⟩
    cases go with
    | throw h => exact absurd (.instruction runs ⟨f, function, code⟩ h) (calm _)
    | raise h => exact absurd (.failure runs ⟨f, function, code⟩ h) (calm _)
    | popCleanup => exact Pending.error?_settle _
    | ret h go => exact go.error?_eq
    | exitLoop go => exact go.error?_eq
    | branch | branchConstant => split <;> rfl
    | assign | setField | setIndex | setConstant | call | bind | push | pop | jump | nop => rfl
  | fallOff runs function code go =>
    exact .inr ⟨fun r outer z => runs.inside_all r outer .completed z, go.error?_eq⟩
  | search active room go =>
    exact .inr ⟨fun r outer z => inside_search active room r outer .completed z, go.error?_eq⟩
  | @complete r outer m₁ es y ends go =>
    refine .inl ⟨r, outer, m₁, ends, go.error?_eq.trans ?_⟩
    cases ends; rfl
  | abandonSearch ends transfer go =>
    exact .inr ⟨ends.not_completed, go.error?_eq.trans (congrArg Pending.error? ends.error_active.2)⟩
  | abandonReturn ends transfer | abandon ends transfer =>
    exact .inr ⟨ends.not_completed, congrArg Pending.error? ends.error_active.2⟩

/-! ## Blocks are nested -/

section
variable {function depth : Nat} {range : Span}

theorem Carries.opens {t : Transfer} (go : x.Carries t es y) (h : .cleanupBegan function range depth ∈ es) :
    ∃ r, y.regions = r :: x.regions := by
  induction go with
  | cleanup => exact ⟨_, rfl⟩
  | pass seeks room top passes go ih => exact ih h
  | abort seeks room top kind go ih =>
    rw [goBack_regions] at ih
    exact ih h
  | popped | caught | uncaught | left | returned | ended => simp at h

theorem Performs.opens {i : Instruction} (go : x.Performs p i es y) (h : .cleanupBegan function range depth ∈ es) :
    ∃ r, y.regions = r :: x.regions := by
  cases go with
  | popCleanup => exact ⟨_, rfl⟩
  | ret hv go => exact go.opens h
  | exitLoop go => exact go.opens h
  | _ => simp at h

theorem Move.opens (move : x.Move p es y) (h : .cleanupBegan function range depth ∈ es) :
    ∃ base r, x.GoesOn base ∧ y.regions = r :: base := by
  cases move with
  | execute runs hf code go =>
    obtain ⟨r, hr⟩ := go.opens (by simpa using h)
    exact ⟨x.regions, r, .all runs.inside_all, hr⟩
  | fallOff runs hf code go =>
    obtain ⟨r, hr⟩ := go.opens (by simpa using h)
    exact ⟨x.regions, r, .all runs.inside_all, hr⟩
  | search active room go =>
    obtain ⟨r, hr⟩ := go.opens h
    exact ⟨x.regions, r, .all (inside_search active room), hr⟩
  | complete ends go =>
    obtain ⟨r, hr⟩ := go.opens h
    exact ⟨_, r, .ended ends, ends.regions_eq ▸ hr⟩
  | abandonSearch ends transfer go =>
    obtain ⟨r, hr⟩ := go.opens (by simpa using h)
    exact ⟨_, r, .ended ends, ends.regions_eq ▸ hr⟩
  | abandonReturn | abandon => simp at h

end

/-- The block that a transition begins is inside of those that go on with it. -/
theorem Begins.goesOn {e : Machine} {range : Span} {t : Transfer} (begins : Begins p x e range t)
    (move : x.advance p = ⟨es, .ok y⟩) : x.GoesOn e.regions := by
  obtain ⟨event, rfl⟩ := begins.move move
  obtain ⟨base, r, goesOn, regions⟩ := (advance_move move).opens event
  rw [show e.regions = base from (List.cons.inj regions).2]
  exact goesOn

/-- A block that goes on with a transition is around the block that the transition begins. -/
theorem GoesOn.keeps {base : List Region} (h : x.GoesOn base) (inside : ∀ exit z, ¬ x.Ends r outer exit z)
    (suffix : r :: outer <:+ x.regions) : r :: outer <:+ base := by
  cases h with
  | all => exact suffix
  | ended ends =>
    rw [ends.regions] at suffix
    rcases List.suffix_cons_iff.1 suffix with heq | suffix
    · cases heq
      exact absurd ends (inside _ _)
    · exact suffix

/-- A block that was begun and has not ended is one of the regions. -/
theorem OpenAt.suffix (h : OpenAt p m b n r outer) (valid : p.Valid) (reach : Reachable p m)
    (hx : m.after? p n = some x) : r :: outer <:+ x.regions := by
  obtain ⟨⟨w, e, range, t, hw, begins, rfl, rfl⟩, before, inside⟩ := h
  -- no transition after the first one of the block takes its region off
  induction n generalizing x with
  | zero => exact absurd before (Nat.not_lt_zero b)
  | succ n ih =>
    obtain ⟨v, es, hv, running, move⟩ := after?_succ.1 hx
    rcases Nat.lt_succ_iff_lt_or_eq.1 before with before | rfl
    · have suffix := ih hv before fun k x hb hk => inside k x hb (Nat.lt_succ_of_lt hk)
      exact ((advance_move move).inside ((after?_reachable reach hv).wellFormed valid)
        (inside n v before (Nat.lt_succ_self n) hv) suffix List.nil_suffix (Nat.zero_le _)).1
    · rw [hw] at hv
      cases hv
      rw [(begins.move move).2]
      exact List.suffix_rfl

theorem OpenAt.mono {k : Nat} (h : OpenAt p m b n r outer) (lt : b < k) (le : k ≤ n) : OpenAt p m b k r outer :=
  ⟨h.begins, lt, fun j x hb hj => h.inside j x hb (Nat.lt_of_lt_of_le hj le)⟩

/-- A block that begins inside of another one is completed before it. -/
theorem Completed.nested {b' c' : Nat} (h : Completed p m b c) (h' : Completed p m b' c') (valid : p.Valid)
    (reach : Reachable p m) (begins : b' < b) (inside : b < c') : c < c' := by
  obtain ⟨r, outer, x, z, opened, hx, ends⟩ := h
  obtain ⟨r', outer', x', z', opened', hx', ends'⟩ := h'
  refine Nat.lt_of_not_le fun le => ?_
  obtain ⟨w, e, range, t, hw, began, rfl, rfl⟩ := opened.begins
  obtain ⟨y, hy⟩ := after?_of_le (k := b + 1) inside hx'
  obtain ⟨w', es, hw', running, move⟩ := after?_succ.1 hy
  rw [hw] at hw'
  cases hw'
  -- the outer block is around the inner one when that begins, and inside of it when it ends
  have around : r' :: outer' <:+ e.regions := by
    refine (began.goesOn move).keeps (opened'.inside b w begins inside hw) ?_
    exact (opened'.mono begins (Nat.le_of_lt inside)).suffix valid reach hw
  have within := (opened.mono inside le).suffix valid reach hx'
  rw [ends'.regions] at within
  have := (within.trans around).length_le
  simp only [List.length_cons] at this
  omega

/-! ## The most recent throw -/

theorem Ignored.mono {k : Nat} (h : Ignored p m k i) (le : k ≤ n) : Ignored p m n i := by
  obtain ⟨b, c, hb, hi, hc, completed⟩ := h
  exact ⟨b, c, hb, hi, Nat.lt_of_lt_of_le hc le, completed⟩

/-- The most recent throw stays so if no other throw gets ignored and all later ones are. -/
theorem Recent.extend {k : Nat} {error : Option Value} (h : Recent p m k error) (le : k ≤ n)
    (old : ∀ i, i < k → Ignored p m n i → Ignored p m k i)
    (new : ∀ i v, k ≤ i → i < n → ThrowsAt p m i v → Ignored p m n i) : Recent p m n error := by
  have later {i : Nat} {v : Value} (ignored : i < k → Ignored p m k i) (lt : i < n) (throws : ThrowsAt p m i v) :
      Ignored p m n i := by
    rcases Nat.lt_or_ge i k with hlt | hge
    · exact (ignored hlt).mono le
    · exact new i v hge lt throws
  cases error with
  | none => exact fun i v lt throws => later (fun hlt => h i v hlt throws) lt throws
  | some v =>
    obtain ⟨i, lt, throws, counts, rest⟩ := h
    refine ⟨i, Nat.lt_of_lt_of_le lt le, throws, fun ignored => counts (old i lt ignored), fun j w hij hj throws' => ?_⟩
    exact later (fun hlt => rest j w hij hlt throws') hj throws'

/-- There is one most recent throw at most. -/
theorem Recent.unique {error error' : Option Value} (h : Recent p m n error) (h' : Recent p m n error') :
    error = error' := by
  cases error with
  | none =>
    cases error' with
    | none => rfl
    | some v =>
      obtain ⟨i, lt, throws, counts, -⟩ := h'
      exact absurd (h i v lt throws) counts
  | some v =>
    obtain ⟨i, lt, ⟨x, hx, throws⟩, counts, rest⟩ := h
    cases error' with
    | none => exact absurd (h' i v lt ⟨x, hx, throws⟩) counts
    | some w =>
      obtain ⟨j, lt', ⟨y, hy, throws'⟩, counts', rest'⟩ := h'
      rcases Nat.lt_trichotomy i j with hij | rfl | hji
      · exact absurd (rest j w hij lt' ⟨y, hy, throws'⟩) counts'
      · rw [hx] at hy
        cases hy
        obtain ⟨es, move⟩ := throws.advance
        exact congrArg (·.pending.error?) (throws'.eq_throw move)
      · exact absurd (rest' i v hji lt ⟨x, hx, throws⟩) counts

/-! ## Runs -/

/-- What holds after `n` transitions. -/
structure Tracked (p : Program) (m : Machine) (n : Nat) (x : Machine) : Prop where
  recent : Recent p m n x.pending.error?
  /-- Each running block keeps the most recent throw of the moment when it began. -/
  blocks : ∀ r outer, r :: outer <:+ x.regions → ∃ b, OpenAt p m b n r outer ∧ Recent p m (b + 1) r.pending.error?

/-- After a throw it is the most recent one. -/
theorem recent_throw {v : Value} (throws : ThrowsAt p m n v) : Recent p m (n + 1) (some v) := by
  refine ⟨n, Nat.lt_succ_self n, throws, ?_, fun j w hj hj' => by omega⟩
  rintro ⟨b, c, -, hn, hc, -⟩
  omega

theorem Tracked.recent_succ (h : Tracked p m n x) (valid : p.Valid) (reach : Reachable p m)
    (hx : m.after? p n = some x) (move : x.advance p = ⟨es, .ok y⟩) : Recent p m (n + 1) y.pending.error? := by
  by_cases throws : ∃ v, Throws p x v
  · obtain ⟨v, throws⟩ := throws
    rw [throws.eq_throw move]
    exact recent_throw ⟨x, hx, throws⟩
  · have calm (v : Value) : ¬ Throws p x v := fun h => throws ⟨v, h⟩
    have silent {v : Value} : ¬ ThrowsAt p m n v := by
      rintro ⟨x', hx', throws⟩
      rw [hx] at hx'
      cases hx'
      exact calm v throws
    rcases (advance_move move).error?_eq calm with ⟨r, outer, z, ends, error⟩ | ⟨none_ended, error⟩
    · -- the block that is completed began at `b`, and all throws since then were inside of it
      obtain ⟨b, opened, recent⟩ := h.blocks r outer (ends.regions ▸ List.suffix_rfl)
      have completed : Completed p m b n := ⟨r, outer, x, z, opened, hx, ends⟩
      have before := opened.before
      rw [error]
      refine recent.extend (by omega) ?_ ?_
      · rintro i hi ⟨b', c', hb, hc, hc', completed'⟩
        refine ⟨b', c', hb, hc, Nat.lt_of_not_le fun inside => ?_, completed'⟩
        have := completed.nested completed' valid reach (by omega) inside
        omega
      · intro i v hi hi' throwsAt
        rcases Nat.lt_succ_iff_lt_or_eq.1 hi' with hi' | rfl
        · exact ⟨b, n, hi, hi', Nat.lt_succ_self n, completed⟩
        · exact absurd throwsAt silent
    · -- nothing was thrown, and no block was completed that could have ignored a throw
      rw [error]
      refine h.recent.extend (Nat.le_succ n) ?_ ?_
      · rintro i hi ⟨b, c, hb, hc, hc', completed⟩
        rcases Nat.lt_succ_iff_lt_or_eq.1 hc' with hc' | rfl
        · exact ⟨b, c, hb, hc, hc', completed⟩
        · obtain ⟨r, outer, x', z, -, hx', ends⟩ := completed
          rw [hx] at hx'
          cases hx'
          exact absurd ends (none_ended r outer z)
      · intro i v hi hi' throwsAt
        cases Nat.le_antisymm hi (Nat.lt_succ_iff.1 hi')
        exact absurd throwsAt silent

theorem Tracked.succ (h : Tracked p m n x) (valid : p.Valid) (reach : Reachable p m)
    (hx : m.after? p n = some x) (move : x.advance p = ⟨es, .ok y⟩) : Tracked p m (n + 1) y := by
  have recent := h.recent_succ valid reach hx move
  refine ⟨recent, ?_⟩
  obtain ⟨base, goesOn, begun⟩ := (advance_move move).begun
  have kept : ∀ r outer, r :: outer <:+ base → ∃ b, OpenAt p m b (n + 1) r outer ∧ Recent p m (b + 1) r.pending.error? := by
    intro r outer suffix
    obtain ⟨suffix, inside⟩ := goesOn.inside suffix
    obtain ⟨b, opened, recent⟩ := h.blocks r outer suffix
    refine ⟨b, ⟨opened.begins, Nat.lt_succ_of_lt opened.before, fun k w hb hk hw => ?_⟩, recent⟩
    rcases Nat.lt_succ_iff_lt_or_eq.1 hk with hk | rfl
    · exact opened.inside k w hb hk hw
    · rw [hx] at hw
      cases hw
      exact inside
  rcases begun with regions | ⟨e, range, t, before, rfl, rfl, regions, -⟩
  · rw [regions]
    exact kept
  · intro r outer suffix
    rcases List.suffix_cons_iff.1 suffix with heq | suffix
    · -- the block that this transition begins keeps the error that is pending now
      cases heq
      refine ⟨n, ⟨⟨x, e, range, t, hx, ⟨before, move⟩, rfl, rfl⟩, Nat.lt_succ_self n, fun k w hb hk => by omega⟩, ?_⟩
      rw [show (e.entered range t).pending.error? = e.pending.error? from Pending.error?_settle _] at recent
      exact recent
    · exact kept r outer (regions ▸ suffix)

theorem after?_tracked {m₀ : Machine} {args : List String} (valid : p.Valid) (reach : Reachable p m)
    (start : m.start args = .ok m₀) : ∀ {n : Nat} {x : Machine}, m₀.after? p n = some x → Tracked p m₀ n x
  | 0, x, h => by
    obtain ⟨-, rfl⟩ := start_ok start
    cases h
    refine ⟨fun i v lt => absurd lt (Nat.not_lt_zero i), fun r outer suffix => ?_⟩
    have := suffix.length_le
    simp [started] at this
  | n + 1, x, h => by
    obtain ⟨w, es, hw, running, move⟩ := after?_succ.1 h
    exact (after?_tracked valid reach start hw).succ valid (reach.start start) hw move

theorem evaluate_error (x : Machine) : x.evaluate .error = match x.pending.error? with
    | some v => .ok (.pure v)
    | none => .error (.fault .noError) := by
  show (orFault _ _ >>= _) = _
  cases x.pending.error? <;> rfl

/-- At every moment of every run, inside of finally blocks and outside, the pending error is the most recent one
that was thrown since the start and counts. A `ReadError` stores it. -/
theorem pending_recent {m₀ : Machine} {args : List String} (valid : p.Valid) (reach : Reachable p m)
    (start : m.start args = .ok m₀) (h : m₀.after? p n = some x) : ReadsRecent p m₀ n x := by
  have recent := (after?_tracked valid reach start h).recent
  have pending (error : Option Value) : x.pending.error? = error ↔ Recent p m₀ n error :=
    ⟨fun heq => heq ▸ recent, recent.unique⟩
  have advance {target : Nat} (runs : x.Runs) (code : p.At x.function x.pc (.assign target .error)) :
      x.advance p = .note (.executing x.function x.pc (.assign target .error))
        (x.conclude (x.evaluate .error) fun y c => y.storeComputed target c) := by
    obtain ⟨f, hf, hi⟩ := code
    rw [runs.advance]
    unfold execute
    rw [hf]
    dsimp only
    rw [hi]; rfl
  refine ⟨pending, fun target v runs code thrown => ?_, fun target runs code => ?_⟩
  · rw [advance runs code, evaluate_error, (pending _).2 thrown]; rfl
  · rw [← pending, advance runs code, evaluate_error]
    cases x.pending.error? with
    | some v => simp [conclude, Transition.note, Transition.done]
    | none => simp [conclude, Transition.note, Transition.fail]

/-- A program whose finally block throws an error, catches it and ends, on the way to a handler that reads the
pending error. -/
def throwInCleanup : Program :=
  ⟨#[⟨"main", 1, #[.assign 0 (.integer 7), .assign 1 (.string "inner"), .pushTry [⟨.any, 8⟩] (some ⟨4, 7⟩), .throw 0,
    .pushTry [⟨.any, 6⟩] none, .throw 1, .popFrame, .nop, .assign 2 .error]⟩]⟩

/-- The handler reads the error that was thrown before the block. -/
theorem pending_recent_throwInCleanup : ∃ x, ((ready throwInCleanup).started []).after? throwInCleanup 10 = some x ∧
    x.function = 0 ∧ x.pc = 8 ∧ ThrowsAt throwInCleanup ((ready throwInCleanup).started []) 6 (.string "inner") ∧
    x.pending.error? = some (.integer 7) ∧ ReadsRecent throwInCleanup ((ready throwInCleanup).started []) 10 x := by
  have first : ((ready throwInCleanup).started []).after? throwInCleanup 3 = some _ :=
    after?_step (after?_step (after?_step rfl rfl rfl) rfl rfl) rfl rfl
  have second := after?_step (after?_step (after?_step first rfl rfl) rfl rfl) rfl rfl
  have third := after?_step (after?_step second rfl rfl) rfl rfl
  have last := after?_step (after?_step third rfl rfl) rfl rfl
  refine ⟨_, last, rfl, rfl, ⟨_, second, ?_⟩, rfl, pending_recent (by decide) .ready rfl last⟩
  refine .instruction ⟨rfl, ?_⟩ ⟨_, rfl, rfl⟩ rfl
  rintro r outer ⟨⟩ ⟨-, stop⟩
  exact absurd stop (by decide)

end SlotVM.Machine
