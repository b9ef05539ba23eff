/-
Calls and returns. The frame that a call pushes stays where it is until the called function returns or an
error leaves it, and all that time nothing changes the frames of the caller but the slots that their names
are bound to. `call_bracketed`: a return goes back behind the call with the returned value, however many
finally blocks have interrupted it; an error goes on searching at the call and writes nothing.
-/
import SlotVM.Proofs.Control.CallStep

namespace SlotVM.Machine

open Transition

/-- The machines from `m` on as long as the frame at the height `d` is on the stack. -/
inductive OnStack (p : Program) (d : Nat) (m : Machine) : Machine → Prop
  | begin : OnStack p d m m
  | step {x y es} (h : OnStack p d m x) (move : x.advance p = ⟨es, .ok y⟩) (stays : d < y.stack.depth) :
      OnStack p d m y

/-- The transition of `x` carries on a return of `value` that the function whose frame is at the height `d` began;
every finally block that has interrupted the return so far is at its end. -/
def Exited (p : Program) (d : Nat) (m x : Machine) (value : Option Value) : Prop :=
  ∃ x₀ blocks, OnStack p d m x₀ ∧ x₀.frame = d ∧ Exits p x₀ value ∧ Continues p x₀ blocks x

/-- The function that `m` called, which began in `m₁`, returns with the transition from `x` to `y`. -/
structure Returned (p : Program) (m m₁ : Machine) (target : Nat) (x : Machine) (es : List Event) (y : Machine)
    (value : Option Value) : Prop where
  exited : Exited p m.stack.depth m₁ x value
  event : .returned m₁.function m.function m.pc ∈ es
  depth : y.stack.depth = m.stack.depth
  frames : y.stack.frames <:+ x.stack.frames
  function : y.function = m.function
  frame : y.frame = m.frame
  pc : y.pc = m.pc + 1
  settled : y.pending.isActive = false
  /-- The slot of the call gets the returned value, and nothing if there is none. -/
  written : ∀ v, value = some v → y.slots = x.slots.write target v
  unwritten : value = none → y.slots = x.slots

/-- The search of `x` for a handler of `error` has taken off the frame of the call that `m` made, and is now at
the call, in `z`. -/
structure SearchesAt (m x z : Machine) (error : Value) : Prop where
  pending : z.pending = .active error
  depth : z.stack.depth = m.stack.depth
  frames : z.stack.frames <:+ x.stack.frames
  function : z.function = m.function
  frame : z.frame = m.frame
  pc : z.pc = m.pc
  regions : z.regions = m.regions

/-- An error leaves the function that `m` called with the transition from `x` to `y`: the search goes on at the
call, down to the floor of the call, and writes nothing. -/
structure Left (p : Program) (m m₁ x : Machine) (es : List Event) (y : Machine) : Prop where
  search : ∃ z error before, SearchesAt m x z error ∧
    x.advance p = ⟨before ++ (z.unwind z.available).events, (z.unwind z.available).result⟩
  silent : .returned m₁.function m.function m.pc ∉ es
  slots : y.slots = x.slots

/-- The frame of the call in `x`, and what takes it off. -/
structure Bracketed (p : Program) (m : Machine) (target function : Nat) (args : List Value) (x : Machine) : Prop where
  frame : (x.stack.get? m.stack.depth).map Frame.kind =
    some (.call ⟨function, args, some target, some ⟨m.function, m.frame, m.pc⟩⟩)
  below : ∀ i < m.stack.depth, (x.stack.get? i).map Frame.outline = (m.stack.get? i).map Frame.outline
  removed : ∀ es y, x.advance p = ⟨es, .ok y⟩ → y.stack.depth ≤ m.stack.depth →
    let m₁ := m.calling target function args
    ((∃ value, Returned p m m₁ target x es y value) ∨ Left p m m₁ x es y) ∧
      ¬ ((∃ value, Returned p m m₁ target x es y value) ∧ Left p m m₁ x es y)

variable {p : Program} {m m₁ x y : Machine} {es : List Event} {r : Region} {outer : List Region} {call : CallFrame}
  {value : Option Value}

theorem length_of_outlines {below : List Frame}
    (outlines : below.map Frame.outline = m.stack.frames.map Frame.outline) : below.length = m.stack.depth := by
  have := congrArg List.length outlines
  rwa [List.length_map, List.length_map, ← m.stack.depth_eq] at this

/-! ## While the frame is on the stack -/

/-- The block `r` has interrupted a return of the called function, and is running in `x`. -/
def Exiting (p : Program) (d : Nat) (m₁ : Machine) (r : Region) (outer : List Region) (value : Option Value)
    (x : Machine) : Prop :=
  ∃ w e range explicit, Exited p d m₁ w value ∧ Begins p w e range (.ret value explicit) ∧
    r = e.region range (.ret value explicit) ∧ outer = e.regions ∧
    During p r outer (e.entered range (.ret value explicit)) x

theorem Exiting.step {d : Nat} (h : Exiting p d m₁ r outer value x) (inside : ∀ exit z, ¬ x.Ends r outer exit z)
    (move : x.advance p = ⟨es, .ok y⟩) : Exiting p d m₁ r outer value y := by
  obtain ⟨w, e, range, explicit, exited, begins, hr, ho, during⟩ := h
  exact ⟨w, e, range, explicit, exited, begins, hr, ho, during.step inside move⟩

theorem Exiting.exited {d : Nat} {z : Machine} (h : Exiting p d m₁ r outer value x)
    (ends : x.Ends r outer .completed z) : Exited p d m₁ x value := by
  obtain ⟨w, e, range, explicit, ⟨x₀, blocks, on, frame, exits, continues⟩, begins, rfl, rfl, during⟩ := h
  exact ⟨x₀, _, on, frame, exits, continues.block begins ⟨during, z, ends⟩⟩

/-- What is true of every machine `x` while the frame of the call is on the stack. -/
structure InCall (p : Program) (m m₁ : Machine) (call : CallFrame) (x : Machine) : Prop where
  reach : Reachable p x
  onStack : OnStack p m.stack.depth m₁ x
  frame : ∃ c below, c.kind = .call call ∧ c :: below <:+ x.stack.frames ∧
    below.map Frame.outline = m.stack.frames.map Frame.outline
  regions : m.regions <:+ x.regions
  /-- The blocks that have begun since the call. -/
  inner : ∀ r outer, r :: outer <:+ x.regions → m.regions <:+ outer → m.stack.depth < r.floor ∧
    ∀ value explicit, r.transfer = .ret value explicit → r.frame = m.stack.depth →
      Exiting p m.stack.depth m₁ r outer value x

namespace InCall

theorem lt_depth (h : InCall p m m₁ call x) : m.stack.depth < x.stack.depth := by
  obtain ⟨c, below, -, suffix, outlines⟩ := h.frame
  have := suffix.length_le
  rw [List.length_cons, ← x.stack.depth_eq, length_of_outlines outlines] at this
  exact this

theorem running (h : InCall p m m₁ call x) : x.halted = false := by
  cases hh : x.halted with
  | false => rfl
  | true =>
    have hd := h.lt_depth
    rw [← x.stack.length_kinds, Stack.kinds_eq_nil_iff.2 hh] at hd
    simp at hd

/-- The blocks that were running at the call do not end. -/
theorem keeps_regions (h : InCall p m m₁ call x) (valid : p.Valid) (wf : m.WellFormed p) {base : List Region}
    (goesOn : x.GoesOn base) : m.regions <:+ base := by
  cases goesOn with
  | all => exact h.regions
  | @ended r outer exit z ends =>
    have hr := h.regions
    rw [ends.regions] at hr
    rcases List.suffix_cons_iff.1 hr with heq | hr
    · have hfloor := (wf.regions r (by rw [heq]; exact List.mem_cons_self ..)).floor
      rw [Stack.length_kinds, ← ends.depth_eq (h.reach.wellFormed valid)] at hfloor
      exact absurd h.lt_depth (by omega)
    · exact hr

/-- A return that the transition of `x` carries out, from a function whose frame is that of the call. -/
theorem exited (h : InCall p m m₁ call x) (valid : p.Valid) (wf : m.WellFormed p) {x₁ : Machine}
    (returning : Returning p x x₁ value) (frame : x₁.frame = m.stack.depth) :
    Exited p m.stack.depth m₁ x value := by
  cases returning with
  | exits exits => exact ⟨x, [], h.onStack, frame, exits, .begin⟩
  | @resumed r outer x₁ value explicit ends transfer =>
    have hr : r :: outer <:+ x.regions := by simp only [ends.regions, List.suffix_rfl]
    obtain ⟨-, exiting⟩ := h.inner r outer hr (h.keeps_regions valid wf (.ended ends))
    have hframe : r.frame = m.stack.depth := by
      rw [← frame, (ends.registers (h.reach.wellFormed valid)).2.1]
    exact (exiting value explicit transfer hframe).exited ends

theorem step (h : InCall p m m₁ call x) (valid : p.Valid) (wf : m.WellFormed p) {k : Continuation}
    (caller : call.caller = some k) (move : x.advance p = ⟨es, .ok y⟩) (stays : m.stack.depth < y.stack.depth) :
    InCall p m m₁ call y := by
  obtain ⟨c, below, kind, suffix, outlines⟩ := h.frame
  obtain ⟨base, goesOn, begun⟩ := (advance_move move).begun
  have hbase := h.keeps_regions valid wf goesOn
  have inner : ∀ r outer, r :: outer <:+ base → m.regions <:+ outer → m.stack.depth < r.floor ∧
      ∀ value explicit, r.transfer = .ret value explicit → r.frame = m.stack.depth →
        Exiting p m.stack.depth m₁ r outer value y := by
    intro r outer hr ho
    obtain ⟨hr, inside⟩ := goesOn.inside hr
    obtain ⟨floor, exiting⟩ := h.inner r outer hr ho
    exact ⟨floor, fun value explicit ht hf => (exiting value explicit ht hf).step inside move⟩
  refine ⟨h.reach.advance h.running move, h.onStack.step move stays, ?_, ?_, ?_⟩
  · cases (h.reach.wellFormed valid).callStep h.reach kind caller suffix move with
    | kept suffix' kind' outlines' => exact ⟨_, _, kind'.trans kind, suffix', outlines'.trans outlines⟩
    | returned returning events back =>
      have := back.depth
      rw [length_of_outlines outlines] at this
      omega
    | left goesOn active slots stack on silent advance =>
      have := on.depth_le advance move
      rw [length_of_outlines outlines] at this
      omega
  · rcases begun with hy | ⟨e, range, t, before, -, rfl, he, origin⟩
    · rw [hy]; exact hbase
    · exact (he ▸ hbase).trans (List.suffix_cons _ _)
  · intro r outer hr ho
    rcases begun with hy | ⟨e, range, t, before, hes, rfl, rfl, origin⟩
    · exact inner r outer (hy ▸ hr) ho
    · rcases List.suffix_cons_iff.1 hr with heq | hr
      · rw [List.cons.injEq] at heq
        obtain ⟨rfl, rfl⟩ := heq
        refine ⟨stays, ?_⟩
        rintro value explicit rfl hf
        refine ⟨x, e, range, explicit, ?_, ⟨before, hes ▸ move⟩, rfl, rfl, .begin⟩
        cases origin with
        | instruction settled plain frame exits =>
          exact h.exited valid wf (.exits (exits value explicit rfl)) (frame.symm.trans hf)
        | search active unwinds => cases unwinds
        | @resumed q qs z ends reaches =>
          have transfer := reaches.ret value explicit rfl
          refine h.exited valid wf (.resumed ends transfer) ?_
          exact (reaches.frame (by rw [transfer]; rfl)).symm.trans hf
      · exact inner r outer hr ho

/-- Every block that has begun since the call would keep the frame of the call. -/
theorem regions_eq (h : InCall p m m₁ call x) (valid : p.Valid) (wf : m.WellFormed p) {base : List Region}
    (goesOn : x.GoesOn base) (floor : ∀ r outer, base = r :: outer → r.floor ≤ m.stack.depth) : base = m.regions := by
  have hbase := h.keeps_regions valid wf goesOn
  cases base with
  | nil => exact (List.suffix_nil.1 hbase).symm
  | cons r outer =>
    rcases List.suffix_cons_iff.1 hbase with heq | ho
    · exact heq.symm
    · have := (h.inner r outer (goesOn.inside List.suffix_rfl).1 ho).1
      have := floor r outer rfl
      omega

/-- When the frame is taken off, the function has returned or an error has left it. -/
theorem removed (h : InCall p m m₁ call x) (valid : p.Valid) (wf : m.WellFormed p)
    (caller : call.caller = some ⟨m.function, m.frame, m.pc⟩) (function : call.function = m₁.function) {target : Nat}
    (returnTarget : call.returnTarget = some target) (move : x.advance p = ⟨es, .ok y⟩)
    (gone : y.stack.depth ≤ m.stack.depth) :
    (∃ value, Returned p m m₁ target x es y value) ∨ Left p m m₁ x es y := by
  obtain ⟨c, below, kind, suffix, outlines⟩ := h.frame
  have hlen := length_of_outlines outlines
  have hbelow : below <:+ x.stack.frames := (List.suffix_cons _ _).trans suffix
  cases (h.reach.wellFormed valid).callStep h.reach kind caller suffix move with
  | kept suffix' kind' outlines' =>
    have hlen' := congrArg List.length outlines'
    rw [List.length_map, List.length_map, hlen] at hlen'
    have := suffix'.length_le
    rw [List.length_cons, ← y.stack.depth_eq, hlen'] at this
    omega
  | @returned x₁ value t before es' returning events back =>
    left
    obtain ⟨⟨d, htop, -⟩, -, slots, settled⟩ := returning.spec valid h.reach h.running
    have hframe : x₁.frame = m.stack.depth := by
      rw [back.top, Option.some.injEq, Prod.mk.injEq] at htop
      exact htop.1.symm.trans hlen
    have hevent : .returned m₁.function m.function m.pc ∈ es := by
      rw [events, back.events, function]
      exact List.mem_append_right _ (List.mem_cons_self ..)
    obtain ⟨rest, rfl, rfl⟩ := back.result
    refine ⟨value, h.exited valid wf returning hframe, hevent, rest.depth_eq.trans hlen, hbelow, rfl, rfl, rfl,
      settled, ?_, ?_⟩
    · rintro v rfl
      rw [received_slots returnTarget, slots]
    · rintro rfl
      rw [received_slots returnTarget, slots]
  | @left x₁ z before goesOn active slots stack on silent advance =>
    right
    obtain ⟨es', w, hw, -, hslots, hsilent⟩ := unwind_writes_nothing (n := z.available) (m := z)
    have hz : z.regions = m.regions := by
      refine on.regions.trans (h.regions_eq valid wf goesOn ?_)
      intro r outer hr
      have := on.floor
      unfold floor at this
      rwa [on.regions, hr, z.stack.depth_eq, on.frames, hlen] at this
    have hpending : ∃ error, z.pending = .active error := by
      rw [← on.pending] at active
      cases hp : z.pending with
      | active error => exact ⟨error, rfl⟩
      | _ => rw [hp] at active; cases active
    obtain ⟨error, hpending⟩ := hpending
    have hmove := advance.symm.trans move
    rw [hw] at hmove
    cases hmove
    refine ⟨⟨z, error, before, ⟨hpending, ?_, ?_, on.function, on.frame, on.pc, hz⟩, advance⟩, ?_, ?_⟩
    · rw [z.stack.depth_eq, on.frames, hlen]
    · rw [on.frames]; exact hbelow
    · rintro hmem
      rcases List.mem_append.1 hmem with hmem | hmem
      · exact silent _ _ _ hmem
      · exact hsilent _ _ _ hmem
    · rw [hslots, on.slots, slots]

/-- The called function begins. -/
theorem begin (reach : Reachable p m₁) (regions : m₁.regions = m.regions)
    (stack : m₁.stack = m.stack.push (.ofKind (.call call))) : InCall p m m₁ call m₁ := by
  refine ⟨reach, .begin, ⟨.ofKind (.call call), m.stack.frames, rfl, ?_, rfl⟩, ?_, ?_⟩
  · simp only [stack, Stack.frames_push, List.suffix_rfl]
  · simp only [regions, List.suffix_rfl]
  · intro r outer hr ho
    rw [regions] at hr
    have := (hr.trans ho).length_le
    rw [List.length_cons] at this
    omega

theorem bracketed (h : InCall p m m₁ call x) (valid : p.Valid) (wf : m.WellFormed p) {target function : Nat}
    {args : List Value} (hm : m₁ = m.calling target function args)
    (hc : call = ⟨function, args, some target, some ⟨m.function, m.frame, m.pc⟩⟩) :
    Bracketed p m target function args x := by
  subst hm hc
  obtain ⟨c, below, kind, suffix, outlines⟩ := h.frame
  have hlen := length_of_outlines outlines
  refine ⟨?_, ?_, ?_⟩
  · rw [Stack.get?_of_suffix suffix (by rw [List.length_cons, hlen]; exact Nat.lt_succ_self _), List.reverse_cons,
      ← hlen, ← below.length_reverse, List.getElem?_concat_length, Option.map_some, kind]
  · intro i hi
    exact Stack.map_outline_get? ((List.suffix_cons _ _).trans suffix) outlines hi
  · intro es y move gone
    refine ⟨h.removed valid wf rfl rfl rfl move gone, ?_⟩
    rintro ⟨⟨value, returned⟩, left⟩
    exact left.silent returned.event

end InCall

/-- The frame of every call that any reachable machine of a valid program makes is bracketed, at every moment as
long as it is on the stack. -/
theorem call_bracketed {p : Program} {m m₁ : Machine} {es : List Event} {target ref : Nat} {args : List Nat}
    (valid : p.Valid) (reach : Reachable p m) (running : m.halted = false) (runs : m.Runs)
    (code : p.At m.function m.pc (.call target ref args)) (move : m.advance p = ⟨es, .ok m₁⟩) :
    ∃ function values, m.callee p ref args = .ok (function, values) ∧ m₁ = m.calling target function values ∧
      ∀ x, OnStack p m.stack.depth m₁ x → Bracketed p m target function values x := by
  have wf := reach.wellFormed valid
  have hm₁ := reach.advance running move
  obtain ⟨f, hf, hi⟩ := code
  rw [runs.advance] at move
  unfold execute at move
  simp only [hf, hi, note_eq] at move
  obtain ⟨es', -, move⟩ := move
  cases perform_performs move with
  | raise h => cases h
  | push h => cases h
  | @call _ _ _ function values h =>
    refine ⟨function, values, h, rfl, ?_⟩
    intro x on
    have hx : InCall p m (m.calling target function values)
        ⟨function, values, some target, some ⟨m.function, m.frame, m.pc⟩⟩ x := by
      induction on with
      | begin => exact .begin hm₁ rfl rfl
      | step on move stays ih => exact ih.step valid wf rfl move stays
    exact hx.bracketed valid wf rfl rfl

/-- A program whose called function returns out of a try construct with a finally block. -/
def returnThroughCleanup : Program :=
  ⟨#[⟨"main", 1, #[.assign 0 (.function 1), .call 1 0 []]⟩,
    ⟨"f", 0, #[.pushTry [] (some ⟨3, 4⟩), .assign 2 (.integer 7), .ret 2, .nop]⟩]⟩

/-- At the end of the finally block the return goes on, and the slot of the call gets the value. -/
theorem call_bracketed_return : ∃ m m₁ es x es' y, returnThroughCleanup.Valid ∧ Reachable returnThroughCleanup m ∧
    m.halted = false ∧ m.Runs ∧ returnThroughCleanup.At m.function m.pc (.call 1 0 []) ∧
    m.advance returnThroughCleanup = ⟨es, .ok m₁⟩ ∧ OnStack returnThroughCleanup m.stack.depth m₁ x ∧ x.regions ≠ [] ∧
    x.advance returnThroughCleanup = ⟨es', .ok y⟩ ∧
    (∃ value, Returned returnThroughCleanup m m₁ 1 x es' y value) ∧ y.slots.get? 1 = some (.integer 7) := by
  have valid : returnThroughCleanup.Valid := by decide
  let m := (((ready returnThroughCleanup).started []).storeComputed 0 (.pure (.function ⟨1, []⟩))).next
  have started : Reachable returnThroughCleanup ((ready returnThroughCleanup).started []) := .start .ready rfl
  have reach : Reachable returnThroughCleanup m := started.advance rfl rfl
  have runs : m.Runs := ⟨rfl, nofun⟩
  have on := ((((OnStack.begin (p := returnThroughCleanup) (d := 1) (m := m.calling 1 1 [])).step rfl
    (by decide)).step rfl (by decide)).step rfl (by decide)).step rfl (by decide)
  obtain ⟨function, values, callee, -, bracketed⟩ := call_bracketed valid reach rfl runs ⟨_, rfl, rfl⟩ rfl
  cases callee
  obtain ⟨returned | left, -⟩ := (bracketed _ on).removed _ _ rfl (by decide)
  · exact ⟨m, _, _, _, _, _, valid, reach, rfl, runs, ⟨_, rfl, rfl⟩, rfl, on, List.cons_ne_nil _ _, rfl, returned, rfl⟩
  · exact absurd (List.mem_cons_self ..) left.silent

end SlotVM.Machine
