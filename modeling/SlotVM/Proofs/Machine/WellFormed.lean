/-
The invariant of runs of a valid program. Frames lie on each other as calls and pushes put them; the
running function and its frame are those of the topmost function frame; every place that is kept for
later lies in the function that it is meant for; and the floors of the running finally blocks are ordered.
`Move.wellFormed`: every transition keeps it.
-/
import SlotVM.Proofs.Machine.Layout

namespace SlotVM.Machine

/-- The invariant. -/
structure WellFormed (m : Machine) (p : Program) : Prop where
  stacked : Stacked p m.stack.kinds
  top : m.stack.kinds ≠ [] → AtTop m.stack.kinds m.function m.frame
  pc : p.Target m.function m.pc
  regions : ∀ r ∈ m.regions, r.WellFormed p m.stack.kinds
  nested : m.regions.Pairwise fun r s => s.floor ≤ r.floor

namespace WellFormed

variable {p : Program} {m m' : Machine} {f : Frame} {rest : Stack}

/-- The innermost region has the highest floor. -/
theorem floor_le (wf : m.WellFormed p) : ∀ r ∈ m.regions, r.floor ≤ m.floor := by
  intro r hr
  have hn := wf.nested
  unfold floor
  cases hm : m.regions with
  | nil => rw [hm] at hr; cases hr
  | cons q outer =>
    rw [hm] at hr hn
    rcases List.mem_cons.1 hr with rfl | hr
    · exact Nat.le_refl _
    · exact (List.pairwise_cons.1 hn).1 r hr

theorem floor_le_depth (wf : m.WellFormed p) : m.floor ≤ m.stack.depth := by
  unfold floor
  cases hm : m.regions with
  | nil => exact Nat.zero_le _
  | cons r outer =>
    have := (wf.regions r (by simp [hm])).floor
    simpa using this

/-- When no frame is left, no finally block is running. -/
theorem regions_eq_nil (wf : m.WellFormed p) (h : m.halted = true) : m.regions = [] := by
  cases hm : m.regions with
  | nil => rfl
  | cons r outer =>
    have hk : m.stack.kinds = [] := Stack.kinds_eq_nil_iff.2 h
    have htop := (wf.regions r (by simp [hm])).top
    rw [hk] at htop
    exact absurd (by simp [bottom]) htop.ne_nil

theorem top_of_running (wf : m.WellFormed p) (running : m.halted = false) :
    AtTop m.stack.kinds m.function m.frame :=
  wf.top fun h => by
    have : m.halted = true := Stack.kinds_eq_nil_iff.1 h
    rw [running] at this; cases this

/-- Neither a jump nor a change of slots, constants, names or the pending error breaks the invariant. -/
theorem of_eq (wf : m.WellFormed p) (kinds : m'.stack.kinds = m.stack.kinds)
    (function : m'.function = m.function) (frame : m'.frame = m.frame)
    (regions : m'.regions = m.regions) (pc : p.Target m.function m'.pc) : m'.WellFormed p where
  stacked := kinds ▸ wf.stacked
  top := by rw [kinds, function, frame]; exact wf.top
  pc := by rw [function]; exact pc
  regions := by rw [regions, kinds]; exact wf.regions
  nested := by rw [regions]; exact wf.nested

theorem top_push (wf : m.WellFormed p) (top : m.stack = rest.push f) :
    AtTop (f.kind :: rest.kinds) m.function m.frame := by
  have h := wf.top
  rw [top, Stack.kinds_push] at h
  exact h (by simp)

theorem rests (wf : m.WellFormed p) (top : m.stack = rest.push f) : f.kind.Rests p rest.kinds := by
  have h := wf.stacked
  rw [top, Stack.kinds_push] at h
  exact h.1

/-- The regions stay as they are when a frame above their floors is taken off. -/
theorem regions_pop (wf : m.WellFormed p) (top : m.stack = rest.push f) (room : m.floor < m.stack.depth) :
    ∀ r ∈ m.regions, r.WellFormed p rest.kinds := by
  intro r hr
  have h := wf.regions r hr
  rw [top, Stack.kinds_push] at h
  refine h.tail ?_
  have := wf.floor_le r hr
  rw [top, Stack.depth_push] at room
  rw [Stack.length_kinds]; omega

/-- A frame above that of the running function is not a function's. -/
theorem not_call_of_pop (wf : m.WellFormed p) (top : m.stack = rest.push f) (room : m.frame + 1 < m.stack.depth) :
    f.kind.call? = none := by
  cases hf : f.kind with
  | call c =>
    have htop := wf.top_push top
    rw [hf] at htop
    obtain ⟨d, hd, -⟩ := htop
    rw [rest.topCall?_call, Option.some.injEq, Prod.mk.injEq] at hd
    rw [top, Stack.depth_push] at room
    omega
  | _ => rfl

/-- Taking off a frame that is not a function's. -/
theorem drop (wf : m.WellFormed p) (top : m.stack = rest.push f) (room : m.floor < m.stack.depth)
    (kind : f.kind.call? = none) :
    { m with stack := rest }.WellFormed p ∧ AtTop rest.kinds m.function m.frame ∧
      f.kind.Within p m.function := by
  have htop := (wf.top_push top).tail kind
  have hs := wf.stacked
  rw [top, Stack.kinds_push] at hs
  exact ⟨⟨hs.2, fun _ => htop, wf.pc, wf.regions_pop top room, wf.nested⟩, htop,
    (wf.rests top).within kind htop⟩

/-- Taking off the frame of a called function, and going back to its call. -/
theorem goBack (wf : m.WellFormed p) (top : m.stack = rest.push f) (room : m.floor < m.stack.depth)
    {call : CallFrame} (kind : f.kind = .call call) {k : Continuation} (caller : call.caller = some k) :
    ({ m with stack := rest }.goBack (some k)).WellFormed p ∧
      ∃ target ref args, p.At k.function k.pc (.call target ref args) := by
  have hr := wf.rests top
  have hs := wf.stacked
  rw [top, Stack.kinds_push] at hs
  rw [kind] at hr
  rcases hr.call with ⟨entry, -⟩ | ⟨i, d, hd, from_⟩
  · rw [entry.caller] at caller; cases caller
  · obtain ⟨pc, target, ref, args, hc, at_, -⟩ := from_.caller
    rw [hc] at caller; cases caller
    exact ⟨⟨hs.2, fun _ => ⟨d, hd, rfl⟩, at_.target, wf.regions_pop top room, wf.nested⟩,
      target, ref, args, at_⟩

/-- Taking off the frame of the entry function, the only frame that is left. -/
theorem entry (wf : m.WellFormed p) (top : m.stack = rest.push f) (room : m.floor < m.stack.depth)
    {call : CallFrame} (kind : f.kind = .call call) (caller : call.caller = none) :
    { m with stack := rest }.WellFormed p ∧ rest.kinds = [] := by
  have hr := wf.rests top
  have hs := wf.stacked
  rw [top, Stack.kinds_push] at hs
  rw [kind] at hr
  rcases hr.call with ⟨-, hnil⟩ | ⟨i, d, hd, from_⟩
  · exact ⟨⟨hs.2, fun h => absurd hnil h, wf.pc, wf.regions_pop top room, wf.nested⟩, hnil⟩
  · obtain ⟨pc, target, ref, args, hc, -⟩ := from_.caller
    rw [hc] at caller; cases caller

theorem abort (wf : m.WellFormed p) (top : m.stack = rest.push f) (room : m.floor < m.stack.depth)
    {call : CallFrame} (kind : f.kind = .call call) :
    ({ m with stack := rest }.goBack call.caller).WellFormed p := by
  cases hc : call.caller with
  | none => exact (wf.entry top room kind hc).1
  | some k => exact (wf.goBack top room kind hc).1

/-- Pushing a frame that is not a function's. -/
theorem push (wf : m.WellFormed p) (top : AtTop m.stack.kinds m.function m.frame)
    (kind : f.kind.call? = none) (within : f.kind.Within p m.function) :
    { m with stack := m.stack.push f }.WellFormed p where
  stacked := ⟨.of_within kind top within, wf.stacked⟩
  top := fun _ => top.cons kind
  pc := wf.pc
  regions := fun r hr => (wf.regions r hr).cons f.kind
  nested := wf.nested

/-- Beginning a finally block of the running function. -/
theorem entered (wf : m.WellFormed p) (top : AtTop m.stack.kinds m.function m.frame) {range : Span}
    (within : range.Within p m.function) {t : Transfer} (fits : t.Within p m.function m.pc) :
    (m.entered range t).WellFormed p where
  stacked := wf.stacked
  top := fun _ => top
  pc := within.stop.mono within.ordered
  regions := by
    intro r hr
    rcases List.mem_cons.1 hr with rfl | hr
    · refine ⟨by simp [region, Machine.entered], ?_, within, wf.pc, fits⟩
      show AtTop (bottom m.stack.depth m.stack.kinds) m.function m.frame
      rw [← Stack.length_kinds, bottom_length]
      exact top
    · exact wf.regions r hr
  nested := List.pairwise_cons.2
    ⟨fun r hr => Nat.le_trans (wf.floor_le r hr) wf.floor_le_depth, wf.nested⟩

/-- Going on at a handler of the running function. -/
theorem handling (wf : m.WellFormed p) (top : AtTop m.stack.kinds m.function m.frame)
    {clause : CatchClause} (target : p.Target m.function clause.handler) (scope : Scope) (error : Value) :
    (m.handling scope clause error).WellFormed p :=
  (wf.push (f := ⟨scope, .attempt [] none⟩) top rfl ⟨by simp, by simp⟩).of_eq rfl rfl rfl rfl target

end WellFormed

/-! ## Ends of finally blocks -/

namespace Ends

variable {p : Program} {m m' : Machine} {r : Region} {outer : List Region} {exit : RegionExit}

theorem regions (ends : m.Ends r outer exit m') : m.regions = r :: outer := by
  cases ends <;> assumption

theorem stack_eq (ends : m.Ends r outer exit m') : m'.stack = m.stack := by
  cases ends <;> rfl

theorem regions_eq (ends : m.Ends r outer exit m') : m'.regions = outer := by
  cases ends <;> rfl

theorem region (ends : m.Ends r outer exit m') (wf : m.WellFormed p) : r.WellFormed p m.stack.kinds :=
  wf.regions r (by simp [ends.regions])

/-- At the end of a finally block the stack is as high as it was at the beginning. -/
theorem depth_eq (ends : m.Ends r outer exit m') (wf : m.WellFormed p) : m.stack.depth = r.floor := by
  have := (ends.region wf).floor
  rw [Stack.length_kinds] at this
  cases ends <;> omega

theorem top (ends : m.Ends r outer exit m') (wf : m.WellFormed p) :
    AtTop m'.stack.kinds r.function r.frame := by
  have h := (ends.region wf).top
  rwa [← ends.depth_eq wf, ← Stack.length_kinds, bottom_length, ← ends.stack_eq] at h

/-- A finally block goes back to the place that it interrupted, whatever it called. -/
theorem registers (ends : m.Ends r outer exit m') (wf : m.WellFormed p) :
    m'.function = r.function ∧ m'.frame = r.frame ∧ m'.pc = r.resume := by
  have htop := ends.top wf
  cases ends with
  | completed regions settled frame stop depth =>
    have hcur := wf.top htop.ne_nil
    rw [frame] at hcur
    exact ⟨hcur.function_eq htop, frame, rfl⟩
  | threw => exact ⟨rfl, rfl, rfl⟩

theorem wellFormed (ends : m.Ends r outer exit m') (wf : m.WellFormed p) : m'.WellFormed p where
  stacked := by rw [ends.stack_eq]; exact wf.stacked
  top _ := by
    rw [(ends.registers wf).1, (ends.registers wf).2.1]
    exact ends.top wf
  pc := by
    rw [(ends.registers wf).1, (ends.registers wf).2.2]
    exact (ends.region wf).resume
  regions := by
    rw [ends.regions_eq, ends.stack_eq]
    exact fun q hq => wf.regions q (by simp [ends.regions, hq])
  nested := by
    have h := wf.nested
    rw [ends.regions] at h
    rw [ends.regions_eq]
    exact (List.pairwise_cons.1 h).2

/-- What the block interrupted can go on. -/
theorem transfer (ends : m.Ends r outer exit m') (wf : m.WellFormed p) :
    r.transfer.Within p m'.function m'.pc := by
  rw [(ends.registers wf).1, (ends.registers wf).2.2]
  exact (ends.region wf).transfer

end Ends

/-! ## Transfers -/

theorem floor_lt_depth {m : Machine} (h : 0 < m.available) : m.floor < m.stack.depth := by
  unfold available at h; omega

theorem handler?_mem {m : Machine} {catches : List CatchClause} {clause : CatchClause} {error : Value}
    (h : m.handler? catches = some (clause, error)) : clause ∈ catches := by
  unfold handler? at h
  obtain ⟨e, -, h⟩ := Option.bind_eq_some_iff.1 h
  obtain ⟨c, hc, h⟩ := Option.map_eq_some_iff.1 h
  cases h
  exact List.mem_of_find?_eq_some hc

/-- Carrying out a transfer keeps the invariant. A clause that is still to be tried is one of a try
construct of the running function. -/
theorem Carries.wellFormed {p : Program} {m m' : Machine} {t : Transfer} {es : List Event}
    (go : m.Carries t es m') (wf : m.WellFormed p) (within : t.Within p m.function m.pc)
    (held : ∀ scope catches, t = .unwind scope catches → catches = [] ∨ m.stack.kinds ≠ []) :
    m'.WellFormed p := by
  induction go with
  | popped => exact wf.of_eq rfl rfl rfl rfl within
  | @caught m scope catches clause error h =>
    have hmem := handler?_mem h
    rcases held scope catches rfl with rfl | hne
    · cases hmem
    · exact wf.handling (wf.top hne) (within clause hmem) scope error
  | uncaught => exact wf
  | cleanup seeks room top kind =>
    obtain ⟨hwf, htop, hk⟩ := wf.drop top (floor_lt_depth room) (by rw [kind]; rfl)
    refine hwf.entered htop ?_ (within.past hk)
    rw [kind] at hk
    exact hk.2 _ rfl
  | pass seeks room top passes go ih =>
    obtain ⟨hwf, htop, hk⟩ := wf.drop top (floor_lt_depth room) passes.call?
    exact ih hwf (within.past hk) fun _ _ _ => .inr htop.ne_nil
  | abort seeks room top kind go ih =>
    refine ih (wf.abort top (floor_lt_depth room) kind) (by simp [Transfer.Within]) ?_
    rintro _ _ h; cases h; exact .inl rfl
  | @left m exit depth start stop f rest room top kind =>
    obtain ⟨hwf, htop, hk⟩ := wf.drop top (floor_lt_depth room) (by rw [kind]; rfl)
    rw [kind] at hk
    refine hwf.of_eq rfl rfl rfl rfl ?_
    cases exit
    · exact hk.2
    · exact hk.1
  | returned room top kind caller =>
    obtain ⟨hwf, target, ref, args, at_⟩ := wf.goBack top (floor_lt_depth room) kind caller
    exact hwf.of_eq rfl rfl rfl rfl at_.target_succ
  | ended room top kind caller =>
    exact (wf.entry top (floor_lt_depth room) kind caller).1.of_eq rfl rfl rfl rfl wf.pc

/-! ## Transitions -/

theorem callee_ok {p : Program} {m : Machine} {ref : Nat} {args : List Nat} {function : Nat}
    {values : List Value} (h : m.callee p ref args = .ok (function, values)) :
    ∃ closure g, m.slots.read ref = .ok (.function closure) ∧ closure.function = function ∧
      p.functions[function]? = some g ∧ (closure.captured ++ args).mapM m.slots.read = .ok values ∧
      values.length = g.params := by
  unfold callee at h
  cases hv : m.slots.read ref with
  | error c => rw [hv] at h; cases h
  | ok v =>
    rw [hv] at h
    simp only [bind, Except.bind] at h
    split at h
    · cases h
    · rename_i closure hc
      split at h
      · cases h
      · rename_i g hg
        split at h
        · cases h
        · rename_i values' hvs
          split at h
          · rename_i hlen
            cases h
            cases v <;> cases hc
            exact ⟨_, g, rfl, rfl, hg, hvs, hlen⟩
          · cases h

/-- Calling a function from the instruction at hand. -/
theorem WellFormed.calling {p : Program} {m : Machine} {target ref : Nat} {args : List Nat} {function : Nat}
    {values : List Value} (wf : m.WellFormed p) (top : AtTop m.stack.kinds m.function m.frame)
    (at_ : p.At m.function m.pc (.call target ref args))
    (h : m.callee p ref args = .ok (function, values)) : (m.calling target function values).WellFormed p := by
  obtain ⟨closure, g, -, -, hg, -, hlen⟩ := callee_ok h
  obtain ⟨c, hc, hcf⟩ := top
  have hrests : FrameKind.Rests p m.stack.kinds (.call ⟨function, values, some target,
      some ⟨m.function, m.frame, m.pc⟩⟩) := by
    unfold FrameKind.Rests
    rw [hc]
    exact ⟨⟨m.pc, target, ref, args, by rw [hcf], by rw [hcf]; exact at_, rfl⟩, g, hg, hlen⟩
  exact ⟨⟨hrests, wf.stacked⟩, fun _ => ⟨_, m.stack.topCall?_call _, rfl⟩, ⟨g, hg, Nat.zero_le _⟩,
    fun r hr => (wf.regions r hr).cons _, wf.nested⟩

theorem Performs.wellFormed {p : Program} {m m' : Machine} {i : Instruction} {es : List Event}
    (go : m.Performs p i es m') (valid : p.Valid) (wf : m.WellFormed p)
    (top : AtTop m.stack.kinds m.function m.frame) (at_ : p.At m.function m.pc i) : m'.WellFormed p := by
  cases go with
  | assign | setField | setIndex | setConstant | nop => exact wf.of_eq rfl rfl rfl rfl at_.target_succ
  | raise | throw => exact wf.of_eq rfl rfl rfl rfl wf.pc
  | call h => exact wf.calling top at_ h
  | bind h => exact wf.of_eq (Stack.bind_kinds h) rfl rfl rfl at_.target_succ
  | @push i kind h =>
    have hk : kind.call? = none := by cases i <;> cases h <;> rfl
    exact (wf.push (f := .ofKind kind) top hk (valid.frame at_ h)).of_eq rfl rfl rfl rfl at_.target_succ
  | @pop f rest room top' kind =>
    exact (wf.drop top' (by omega) (wf.not_call_of_pop top' (by omega))).1.of_eq rfl rfl rfl rfl at_.target_succ
  | @popCleanup catches range f rest room top' kind =>
    obtain ⟨hwf, htop, hk⟩ := wf.drop top' (by omega) (by rw [kind]; rfl)
    rw [kind] at hk
    exact hwf.entered htop (hk.2 _ rfl) at_.target_succ
  | jump => exact wf.of_eq rfl rfl rfl rfl (valid.target at_ rfl)
  | branch h =>
    split
    · exact wf.of_eq rfl rfl rfl rfl (valid.target at_ rfl)
    · exact wf.of_eq rfl rfl rfl rfl at_.target_succ
  | branchConstant =>
    split
    · exact wf.of_eq rfl rfl rfl rfl (valid.target at_ rfl)
    · exact wf.of_eq rfl rfl rfl rfl at_.target_succ
  | ret h go => exact go.wellFormed (wf.of_eq rfl rfl rfl rfl wf.pc) trivial (by simp)
  | exitLoop go => exact go.wellFormed wf trivial (by simp)

/-- Every transition keeps the invariant. -/
theorem Move.wellFormed {p : Program} {m m' : Machine} {es : List Event} (move : m.Move p es m')
    (valid : p.Valid) (wf : m.WellFormed p) (running : m.halted = false) : m'.WellFormed p := by
  have top := wf.top_of_running running
  have search : ∀ (scope : Scope) (catches : List CatchClause), Transfer.unwind .empty [] = .unwind scope catches →
      catches = [] ∨ m.stack.kinds ≠ [] := by rintro _ _ h; cases h; exact .inl rfl
  cases move with
  | execute runs function code go => exact go.wellFormed valid wf top ⟨_, function, code⟩
  | fallOff runs function code go =>
    exact go.wellFormed (wf.of_eq rfl rfl rfl rfl wf.pc) trivial (by simp)
  | search active room go => exact go.wellFormed wf (by simp [Transfer.Within]) search
  | complete ends go =>
    exact go.wellFormed (ends.wellFormed wf) (ends.transfer wf) fun _ _ _ => .inr (ends.top wf).ne_nil
  | abandonSearch ends transfer go =>
    exact go.wellFormed (ends.wellFormed wf) (by simp [Transfer.Within])
      (by rintro _ _ h; cases h; exact .inl rfl)
  | abandonReturn ends transfer =>
    have hwf := ends.wellFormed wf
    exact hwf.of_eq rfl rfl rfl rfl hwf.pc
  | abandon ends transfer => exact ends.wellFormed wf

end SlotVM.Machine
