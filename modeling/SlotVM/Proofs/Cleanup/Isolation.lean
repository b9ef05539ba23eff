/-
Finally blocks leave alone what they interrupt. From the beginning of a block to its end, however deep
it is nested and whatever it calls, the frames that were on the stack stay there with their kinds, and
only a `Bind` changes the names in them. A block that runs to its end gives back the registers and the
pending error as they were; one that throws gives back the registers, and its error is pending.
-/
import SlotVM.Proofs.Machine.Below

namespace SlotVM.Machine

/-- A transition of `m` that begins a finally block: it does so in the machine `e`, after everything else
that it does. -/
def Begins (p : Program) (m e : Machine) (range : Span) (t : Transfer) : Prop :=
  ∃ before, m.advance p = ⟨before ++ (e.enter range t).events, (e.enter range t).result⟩

/-- The machines from the beginning of a block, in `m`, to its end; the block is the region `r` inside of
the regions `outer`. -/
inductive During (p : Program) (r : Region) (outer : List Region) (m : Machine) : Machine → Prop
  | begin : During p r outer m m
  | step {x y es} (h : During p r outer m x) (inside : ∀ exit z, ¬ x.Ends r outer exit z)
      (move : x.advance p = ⟨es, .ok y⟩) : During p r outer m y

/-- What a block that began in `e` as the region `r` has left alone when the machine is `x`. -/
structure Isolated (p : Program) (e : Machine) (r : Region) (x : Machine) : Prop where
  depth : e.stack.depth ≤ x.stack.depth
  kinds : ∀ i < e.stack.depth, (x.stack.get? i).map Frame.kind = (e.stack.get? i).map Frame.kind
  /-- Until the block ends, only a `Bind` changes a frame, and it keeps the kinds. -/
  names : (∀ exit z, ¬ x.Ends r e.regions exit z) → ∀ es y, x.advance p = ⟨es, .ok y⟩ →
    (∀ i < e.stack.depth, y.stack.get? i = x.stack.get? i) ∨
      ∃ function pc name ref, .executing function pc (.bind name ref) ∈ es
  completed : ∀ y, x.Ends r e.regions .completed y → x.advance p = y.resume r.transfer ∧
    y.stack.depth = e.stack.depth ∧ y.function = e.function ∧ y.frame = e.frame ∧ y.pc = e.pc ∧
    y.pending = e.pending
  threw : ∀ y, x.Ends r e.regions .threw y → x.advance p = x.abandon r e.regions ∧
    y.stack.depth = e.stack.depth ∧ y.function = e.function ∧ y.frame = e.frame ∧ y.pc = e.pc ∧
    ∃ error, x.pending = .active error ∧ y.pending = .active error

section
variable {p : Program} {m m' : Machine} {es : List Event} {r : Region} {outer : List Region}

/-- The event of a block that begins is the last one of its transition. -/
def BeginsIn (es : List Event) (m' : Machine) (function : Nat) (range : Span) (depth : Nat) : Prop :=
  ∃ (e : Machine) (t : Transfer) (before : List Event), e.function = function ∧ e.stack.depth = depth ∧
    es = before ++ (e.enter range t).events ∧
    m' = e.entered range t

section
variable {function depth : Nat} {range : Span}

theorem BeginsIn.cons (h : BeginsIn es m' function range depth) (ev : Event) :
    BeginsIn (ev :: es) m' function range depth := by
  obtain ⟨e, t, before, hf, hd, rfl, rfl⟩ := h
  exact ⟨e, t, ev :: before, hf, hd, rfl, rfl⟩

theorem Carries.beginsIn {t : Transfer} (go : m.Carries t es m') (h : .cleanupBegan function range depth ∈ es) :
    BeginsIn es m' function range depth := by
  induction go with
  | @cleanup m t catches range f rest seeks room top kind =>
    rw [List.mem_singleton] at h
    cases h
    exact ⟨{ m with stack := rest }, t.past f, [], rfl, rfl, rfl, rfl⟩
  | pass seeks room top passes go ih | abort seeks room top kind go ih => exact ih h
  | popped | caught | uncaught | left | returned | ended => simp at h

theorem Performs.beginsIn {i : Instruction} (go : m.Performs p i es m')
    (h : .cleanupBegan function range depth ∈ es) : BeginsIn es m' function range depth := by
  cases go with
  | @popCleanup catches range f rest room top kind =>
    rw [List.mem_singleton] at h
    cases h
    exact ⟨{ m with stack := rest }, .pop, [], rfl, rfl, rfl, rfl⟩
  | ret hv go => exact go.beginsIn h
  | exitLoop go => exact go.beginsIn h
  | _ => simp at h

theorem Move.beginsIn (move : m.Move p es m') (h : .cleanupBegan function range depth ∈ es) :
    BeginsIn es m' function range depth := by
  cases move with
  | execute runs hf code go => exact .cons (go.beginsIn (by simpa using h)) _
  | fallOff runs hf code go => exact .cons (go.beginsIn (by simpa using h)) _
  | abandonSearch ends transfer go => exact .cons (go.beginsIn (by simpa using h)) _
  | search active room go => exact go.beginsIn h
  | complete ends go => exact go.beginsIn h
  | abandonReturn | abandon => simp at h

/-- Whatever makes a finally block begin, it begins by `enter` at the end of a transition. -/
theorem begins_of_cleanupBegan (move : m.advance p = ⟨es, .ok m'⟩)
    (h : .cleanupBegan function range depth ∈ es) : ∃ e t, Begins p m e range t ∧ e.function = function ∧
      e.stack.depth = depth ∧ m' = e.entered range t := by
  obtain ⟨e, t, before, hf, hd, rfl, rfl⟩ := (advance_move move).beginsIn h
  exact ⟨e, t, ⟨before, move⟩, hf, hd, rfl⟩

end

theorem Carries.keeps_region {t : Transfer} (go : m.Carries t es m') (h : r :: outer <:+ m.regions) :
    r :: outer <:+ m'.regions := by
  rcases go.regions with hr | ⟨q, hr⟩ <;> rw [hr]
  · exact h
  · exact h.trans (List.suffix_cons _ _)

/-- When another block than `r` ends, `r` goes on. -/
theorem Ends.keeps_region {q : Region} {qs : List Region} {exit : RegionExit} (ends : m.Ends q qs exit m')
    (inside : ∀ exit z, ¬ m.Ends r outer exit z) (h : r :: outer <:+ m.regions) :
    r :: outer <:+ m'.regions := by
  rw [ends.regions] at h
  rw [ends.regions_eq]
  rcases List.suffix_cons_iff.1 h with heq | h
  · cases heq; exact absurd ends (inside exit m')
  · exact h

theorem WellFormed.floor_le_of_suffix (wf : m.WellFormed p) (h : r :: outer <:+ m.regions) :
    r.floor ≤ m.floor :=
  wf.floor_le r (h.subset (List.mem_cons_self ..))

/-- A transition inside of a block: the block goes on, and the frames below its floor stay, except that a
`Bind` may change their names. -/
theorem Move.inside {l : List Frame} (move : m.Move p es m') (wf : m.WellFormed p)
    (inside : ∀ exit z, ¬ m.Ends r outer exit z) (hr : r :: outer <:+ m.regions)
    (h : l <:+ m.stack.frames) (hl : l.length ≤ r.floor) :
    r :: outer <:+ m'.regions ∧ (l <:+ m'.stack.frames ∨ (m'.stack.kinds = m.stack.kinds ∧
      ∃ function pc name ref, .executing function pc (.bind name ref) ∈ es)) := by
  have hfloor : l.length ≤ m.floor := Nat.le_trans hl (wf.floor_le_of_suffix hr)
  have ended : ∀ {q qs exit m₁}, m.Ends q qs exit m₁ →
      r :: outer <:+ m₁.regions ∧ l <:+ m₁.stack.frames ∧ l.length ≤ m₁.floor := by
    intro q qs exit m₁ ends
    have hr₁ := ends.keeps_region inside hr
    exact ⟨hr₁, by rw [ends.stack_eq]; exact h, Nat.le_trans hl ((ends.wellFormed wf).floor_le_of_suffix hr₁)⟩
  cases move with
  | execute runs function code go =>
    refine ⟨?_, ?_⟩
    · rcases go.regions with hm | ⟨q, hm⟩ <;> rw [hm]
      · exact hr
      · exact hr.trans (List.suffix_cons _ _)
    · rcases go.suffix h hfloor with h | ⟨hk, name, ref, rfl⟩
      · exact .inl h
      · exact .inr ⟨hk, _, _, name, ref, List.mem_cons_self ..⟩
  | fallOff runs function code go => exact ⟨go.keeps_region hr, .inl (go.suffix h hfloor)⟩
  | search active room go => exact ⟨go.keeps_region hr, .inl (go.suffix h hfloor)⟩
  | complete ends go | abandonSearch ends transfer go =>
    obtain ⟨hr₁, h₁, hl₁⟩ := ended ends
    exact ⟨go.keeps_region hr₁, .inl (go.suffix h₁ hl₁)⟩
  | abandonReturn ends transfer | abandon ends transfer =>
    obtain ⟨hr₁, h₁, -⟩ := ended ends
    exact ⟨hr₁, .inl h₁⟩

/-- A block in which no frame is left: nothing of it has ended, so the machine is not halted. -/
theorem WellFormed.running (wf : m.WellFormed p) (h : r :: outer <:+ m.regions) : m.halted = false := by
  cases hh : m.halted with
  | false => rfl
  | true =>
    rw [wf.regions_eq_nil hh] at h
    simp at h

/-- All through a block the machine is reachable, the block is running, and the kinds of the frames below
its floor are those of the beginning. -/
theorem During.spec {x : Machine} (h : During p r outer m x) (valid : p.Valid) (reach : Reachable p m)
    (hr : r :: outer <:+ m.regions) (floor : r.floor = m.stack.depth) :
    Reachable p x ∧ r :: outer <:+ x.regions ∧ m.stack.kinds <:+ x.stack.kinds := by
  induction h with
  | begin => exact ⟨reach, hr, List.suffix_rfl⟩
  | @step x y es h inside move ih =>
    obtain ⟨hx, hrx, hk⟩ := ih
    have wf := hx.wellFormed valid
    have hlen : (bottom m.stack.depth x.stack.frames).length = m.stack.depth :=
      length_bottom (by simpa [← x.stack.depth_eq] using hk.length_le)
    have hbot : (bottom m.stack.depth x.stack.frames).map Frame.kind = m.stack.kinds := by
      rw [map_bottom, ← Stack.length_kinds]
      exact bottom_of_suffix hk
    obtain ⟨hry, hbelow | ⟨hkeep, -⟩⟩ := (advance_move move).inside wf inside hrx
      (bottom_suffix m.stack.depth x.stack.frames) (by omega)
    · refine ⟨hx.advance (wf.running hrx) move, hry, ?_⟩
      rw [← hbot]
      exact hbelow.map Frame.kind
    · exact ⟨hx.advance (wf.running hrx) move, hry, hkeep ▸ hk⟩

theorem Ends.advance_completed (ends : m.Ends r outer .completed m') : m.advance p = m'.resume r.transfer := by
  cases ends with
  | completed regions settled frame stop depth =>
    simp [advance, regions, settled, frame, stop, complete, depth]

theorem Ends.advance_threw (ends : m.Ends r outer .threw m') : m.advance p = m.abandon r outer := by
  cases ends with
  | threw regions active depth => simp [advance, regions, active, depth]

end

/-- Every finally block that any reachable machine of a valid program begins is isolated, at every moment
until it ends and in the machine that it goes back to. -/
theorem cleanup_isolated {p : Program} {m e x : Machine} {range : Span} {t : Transfer} (valid : p.Valid)
    (reach : Reachable p m) (running : m.halted = false) (begins : Begins p m e range t)
    (during : During p (e.region range t) e.regions (e.entered range t) x) :
    Isolated p e (e.region range t) x := by
  obtain ⟨before, hb⟩ := begins
  have hentered : Reachable p (e.entered range t) := reach.advance running hb
  obtain ⟨hx, hr, hk⟩ := during.spec valid hentered List.suffix_rfl rfl
  have wf := hx.wellFormed valid
  have hk : e.stack.kinds <:+ x.stack.kinds := hk
  have hdepth : e.stack.depth ≤ x.stack.depth := by simpa using hk.length_le
  constructor
  · exact hdepth
  · intro i hi
    exact Stack.map_kind_get?_of_suffix hk hi
  · intro inside es y move
    have hlen : (bottom e.stack.depth x.stack.frames).length = e.stack.depth :=
      length_bottom (by rw [← x.stack.depth_eq]; exact hdepth)
    have hbelow := bottom_suffix e.stack.depth x.stack.frames
    obtain ⟨-, h | ⟨-, h⟩⟩ := (advance_move move).inside wf inside hr hbelow (Nat.le_of_eq hlen)
    · left
      intro i hi
      rw [Stack.get?_of_suffix h (by omega), Stack.get?_of_suffix hbelow (by omega)]
    · exact .inr h
  · intro y ends
    obtain ⟨hf, hfr, hpc⟩ := ends.registers wf
    refine ⟨ends.advance_completed, ?_, hf, hfr, hpc, ?_⟩
    · rw [ends.stack_eq, ends.depth_eq wf]; rfl
    · cases ends; rfl
  · intro y ends
    obtain ⟨hf, hfr, hpc⟩ := ends.registers wf
    refine ⟨ends.advance_threw, ?_, hf, hfr, hpc, ?_⟩
    · rw [ends.stack_eq, ends.depth_eq wf]; rfl
    · cases ends with
      | threw regions active depth =>
        cases hp : x.pending with
        | active error => exact ⟨error, rfl, hp⟩
        | _ => rw [hp] at active; cases active

/-- A program whose finally block calls a function. -/
def callInCleanup : Program :=
  ⟨#[⟨"main", 1, #[.assign 0 (.function 1), .pushTry [] (some ⟨3, 4⟩), .popFrame, .call 1 0 []]⟩,
    ⟨"f", 0, #[.nop]⟩]⟩

/-- In the called function the block is still isolated. -/
theorem cleanup_isolated_call : ∃ m e x, callInCleanup.Valid ∧ Reachable callInCleanup m ∧
    m.halted = false ∧ Begins callInCleanup m e ⟨3, 4⟩ .pop ∧
    During callInCleanup (e.region ⟨3, 4⟩ .pop) e.regions (e.entered ⟨3, 4⟩ .pop) x ∧ x.function = 1 ∧
    Isolated callInCleanup e (e.region ⟨3, 4⟩ .pop) x := by
  have valid : callInCleanup.Valid := by decide
  have started : Reachable callInCleanup ((ready callInCleanup).started []) := .start .ready rfl
  have pushed := (started.advance rfl rfl).advance rfl rfl
  let assigned := (((ready callInCleanup).started []).storeComputed 0 (.pure (.function ⟨1, []⟩))).next
  refine ⟨_, assigned.next, _, valid, pushed, rfl, ⟨[.executing 0 2 .popFrame], rfl⟩, .step .begin ?_ rfl, rfl,
    cleanup_isolated valid pushed rfl ⟨[.executing 0 2 .popFrame], rfl⟩ (.step .begin ?_ rfl)⟩
  all_goals
    -- the call stands before the end of the block
    rintro exit z ends
    cases ends with
    | completed regions settled frame stop => exact absurd stop (by decide)
    | threw regions active => cases active

end SlotVM.Machine
