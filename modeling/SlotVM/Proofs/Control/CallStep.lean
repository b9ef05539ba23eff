/-
What a transition does to the frame of a call. It keeps the frame, with the frames of the caller below it,
unless the called function returns or an error leaves it; `WellFormed.callStep` tells the three cases apart.
A return comes from an instruction of the function or from the end of a block that interrupted it, and the
search for a handler goes on at the call.
-/
import SlotVM.Proofs.Cleanup.Origin
import SlotVM.Proofs.Stack.Outline

namespace SlotVM.Machine

open Transition

variable {p : Program} {m m' m₁ x y z : Machine} {es : List Event} {r : Region} {outer : List Region}

/-! ## The frame of a call -/

section
variable {c : Frame} {below : List Frame} {call : CallFrame} {k : Continuation} {value : Option Value}

theorem suffix_push {f : Frame} {rest : Stack} (top : m.stack = rest.push f) (suffix : c :: below <:+ m.stack.frames) :
    (c = f ∧ rest.frames = below) ∨ c :: below <:+ rest.frames := by
  rw [top, Stack.frames_push] at suffix
  rcases List.suffix_cons_iff.1 suffix with heq | suffix
  · rw [List.cons.injEq] at heq
    exact .inl ⟨heq.1, heq.2.symm⟩
  · exact .inr suffix

/-- The return of a function goes back to the call `k`; below the frame of the function are the frames of
`rest`. -/
structure GoesBack (m : Machine) (below : List Frame) (call : CallFrame) (k : Continuation) (t : Transfer)
    (es : List Event) (m' : Machine) (value : Option Value) : Prop where
  transfer : ∃ explicit, t = .ret value explicit
  events : es = [.returned call.function k.function k.pc]
  /-- The frame is that of the running function. -/
  top : topCall? m.stack.kinds = some (below.length, call)
  result : ∃ rest, rest.frames = below ∧ m' = { m with stack := rest }.received call value k

theorem GoesBack.depth {t : Transfer} (h : m.GoesBack below call k t es m' value) : m'.stack.depth = below.length := by
  obtain ⟨rest, rfl, rfl⟩ := h.result
  exact rest.depth_eq

theorem received_slots {target : Nat} (returnTarget : call.returnTarget = some target) :
    (m.received call value k).slots =
      match value with
      | some v => m.slots.write target v
      | none => m.slots := by
  cases value <;> simp only [received, returnTarget] <;> rfl

/-- Nothing but a return or an error takes the frame of a call off. -/
theorem Carries.keeps_call {t : Transfer} (go : m.Carries t es m') (kind : c.kind = .call call)
    (caller : call.caller = some k) (suffix : c :: below <:+ m.stack.frames) (plain : t.isUnwind = false) :
    c :: below <:+ m'.stack.frames ∨ ∃ value, m.GoesBack below call k t es m' value := by
  induction go with
  | popped => exact .inl suffix
  | caught | uncaught | abort => cases plain
  | cleanup seeks room top kind' =>
    rcases suffix_push top suffix with ⟨rfl, -⟩ | suffix
    · rw [kind] at kind'; cases kind'
    · exact .inl suffix
  | left room top kind' =>
    rcases suffix_push top suffix with ⟨rfl, -⟩ | suffix
    · rw [kind] at kind'; cases kind'
    · exact .inl suffix
  | ended room top kind' caller' =>
    rcases suffix_push top suffix with ⟨rfl, -⟩ | suffix
    · rw [kind] at kind'
      cases kind'
      rw [caller] at caller'; cases caller'
    · exact .inl suffix
  | @returned m value explicit call' k' f rest room top kind' caller' =>
    rcases suffix_push top suffix with ⟨rfl, hrest⟩ | suffix
    · rw [kind] at kind'
      cases kind'
      rw [caller] at caller'
      cases caller'
      refine .inr ⟨value, ⟨explicit, rfl⟩, rfl, ?_, rest, hrest, rfl⟩
      rw [kinds_top top, kind, rest.topCall?_call, rest.depth_eq, hrest]
    · exact .inl suffix
  | @pass m t es m' f rest seeks room top passes go ih =>
    have hf := passes.call?
    rcases suffix_push top suffix with ⟨rfl, -⟩ | suffix
    · rw [kind] at hf; cases hf
    · rcases ih suffix (by rw [t.isUnwind_past, plain]) with h | ⟨value, ⟨explicit, ht⟩, hes, htop, hresult⟩
      · exact .inl h
      · refine .inr ⟨value, ⟨explicit, Transfer.eq_of_past_ret ht⟩, hes, ?_, hresult⟩
        rwa [kinds_top top, topCall?_cons hf]

/-- The search of `m` has taken off the frame of a call and goes on in `z`, at the call `k`. -/
structure SearchesOn (m : Machine) (below : List Frame) (k : Continuation) (z : Machine) : Prop where
  frames : z.stack.frames = below
  function : z.function = k.function
  frame : z.frame = k.frame
  pc : z.pc = k.pc
  slots : z.slots = m.slots
  pending : z.pending = m.pending
  regions : z.regions = m.regions
  floor : z.floor ≤ z.stack.depth

/-- The search for a handler stops above the frame of a call, or goes on at the call. -/
theorem unwind_removes (kind : c.kind = .call call) (caller : call.caller = some k) :
    ∀ {n : Nat} {m : Machine} {t : Transition}, m.available = n → c :: below <:+ m.stack.frames → m.unwind n = t →
      (∃ es y, t = ⟨es, .ok y⟩ ∧ c :: below <:+ y.stack.frames) ∨
        ∃ z, m.SearchesOn below k z ∧ t = z.unwind z.available
  | 0, m, t, _, suffix, go => .inl ⟨_, _, go.symm, suffix⟩
  | n + 1, m, t, hn, suffix, go => by
    unfold unwind at go
    split at go
    · exact .inl ⟨_, _, go.symm, suffix⟩
    · rename_i f rest hp
      have top := Stack.eq_push_of_pop? hp
      have hrest := available_pop top hn
      have hdepth : m.stack.depth = rest.depth + 1 := by rw [top, Stack.depth_push]
      rcases suffix_push top suffix with ⟨rfl, hbelow⟩ | suffix
      · simp only [kind, caller] at go
        refine .inr ⟨{ m with stack := rest }.goBack (some k), ⟨hbelow, rfl, rfl, rfl, rfl, rfl, rfl, ?_⟩, ?_⟩
        · show m.floor ≤ rest.depth
          unfold available at hn
          omega
        · rw [goBack_available, hrest, go]
      · -- the frame that is taken off is above that of the call
        have goes {w : Machine} (go : w.unwind n = t) (stack : w.stack = rest) (slots : w.slots = m.slots)
            (pending : w.pending = m.pending) (regions : w.regions = m.regions) :
            (∃ es y, t = ⟨es, .ok y⟩ ∧ c :: below <:+ y.stack.frames) ∨
              ∃ z, m.SearchesOn below k z ∧ t = z.unwind z.available := by
          have hw : w.available = n := by
            rw [← hrest]; unfold available floor; rw [stack, regions]
          rcases unwind_removes kind caller hw (by rw [stack]; exact suffix) go with h | ⟨z, h, hz⟩
          · exact .inl h
          · exact .inr ⟨z, ⟨h.frames, h.function, h.frame, h.pc, h.slots.trans slots, h.pending.trans pending,
              h.regions.trans regions, h.floor⟩, hz⟩
        dsimp only at go
        split at go
        · exact .inl ⟨_, _, go.symm, suffix⟩
        · split at go
          · exact .inl ⟨_, _, go.symm, suffix.trans (List.suffix_cons _ _)⟩
          · exact goes go rfl rfl rfl rfl
        · rename_i call' kind'
          exact goes go (goBack_stack _ _) (by cases call'.caller <;> rfl) (by cases call'.caller <;> rfl)
            (goBack_regions _ _)
        all_goals exact goes go rfl rfl rfl rfl

/-- What every search for a handler does not do: grow the stack, write a slot or return. -/
theorem unwind_writes_nothing : ∀ {n : Nat} {m : Machine}, ∃ es y, m.unwind n = ⟨es, .ok y⟩ ∧
    y.stack.depth ≤ m.stack.depth ∧ y.slots = m.slots ∧ ∀ callee caller pc, .returned callee caller pc ∉ es
  | 0, m => ⟨[], m, rfl, Nat.le_refl _, rfl, by simp⟩
  | n + 1, m => by
    unfold unwind
    split
    · exact ⟨[], m, rfl, Nat.le_refl _, rfl, by simp⟩
    · rename_i f rest hp
      have hdepth : m.stack.depth = rest.depth + 1 := by rw [Stack.eq_push_of_pop? hp, Stack.depth_push]
      have goes {w : Machine} (stack : w.stack = rest) (slots : w.slots = m.slots) :
          ∃ es y, w.unwind n = ⟨es, .ok y⟩ ∧ y.stack.depth ≤ m.stack.depth ∧ y.slots = m.slots ∧
            ∀ callee caller pc, .returned callee caller pc ∉ es := by
        obtain ⟨es, y, hy, hle, hslots, hes⟩ := unwind_writes_nothing (n := n) (m := w)
        exact ⟨es, y, hy, by rw [stack] at hle; omega, hslots.trans slots, hes⟩
      dsimp only
      split
      · exact ⟨_, _, rfl, by rw [hdepth]; exact Nat.le_succ _, rfl, by simp [done]⟩
      · split
        · exact ⟨_, _, rfl, Nat.le_of_eq hdepth.symm, rfl, by simp [done]⟩
        · exact goes rfl rfl
      · exact goes (goBack_stack _ _) (by rename_i call' _; cases call'.caller <;> rfl)
      all_goals exact goes rfl rfl

theorem SearchesOn.depth_le {before : List Event} (on : m.SearchesOn below k z)
    (advance : x.advance p = ⟨before ++ (z.unwind z.available).events, (z.unwind z.available).result⟩)
    (move : x.advance p = ⟨es, .ok y⟩) : y.stack.depth ≤ below.length := by
  obtain ⟨es', w, hw, hle, -⟩ := unwind_writes_nothing (n := z.available) (m := z)
  rw [advance, hw] at move
  cases move
  rwa [z.stack.depth_eq, on.frames] at hle

/-- The transition of `x` carries out a return from the running function of `x₁`. -/
inductive Returning (p : Program) (x : Machine) : Machine → Option Value → Prop
  | exits {value : Option Value} (exits : Exits p x value) : Returning p x { x with returned := none } value
  /-- The return was interrupted by the block that is at its end. -/
  | resumed {r : Region} {outer : List Region} {x₁ : Machine} {value : Option Value} {explicit : Bool}
      (ends : x.Ends r outer .completed x₁) (transfer : r.transfer = .ret value explicit) : Returning p x x₁ value

theorem Returning.spec {x₁ : Machine} (h : Returning p x x₁ value) (valid : p.Valid) (reach : Reachable p x)
    (running : x.halted = false) : AtTop x₁.stack.kinds x₁.function x₁.frame ∧ x₁.stack = x.stack ∧
      x₁.slots = x.slots ∧ x₁.pending.isActive = false := by
  have wf := reach.wellFormed valid
  cases h with
  | exits exits =>
    have runs : x.Runs := by cases exits <;> assumption
    exact ⟨wf.top_of_running running, rfl, rfl, runs.settled⟩
  | @resumed r outer x₁ value explicit ends transfer =>
    obtain ⟨function, frame, -⟩ := ends.registers wf
    refine ⟨function ▸ frame ▸ ends.top wf, ends.stack_eq, by cases ends; rfl, ?_⟩
    have := reach.pending_isActive r (by rw [ends.regions]; exact List.mem_cons_self ..)
    rw [transfer] at this
    cases ends
    exact this

/-- What a transition of `x` does to the frame `c` of a call and to the frames below it. -/
inductive CallStep (p : Program) (x : Machine) (c : Frame) (below : List Frame) (call : CallFrame) (k : Continuation)
    (es : List Event) (y : Machine) : Prop
  | kept {c' : Frame} {below' : List Frame} (suffix : c' :: below' <:+ y.stack.frames) (kind : c'.kind = c.kind)
      (outlines : below'.map Frame.outline = below.map Frame.outline)
  | returned {x₁ : Machine} {value : Option Value} {t : Transfer} {before es' : List Event}
      (returning : Returning p x x₁ value) (events : es = before ++ es') (back : x₁.GoesBack below call k t es' y value)
  | left {x₁ z : Machine} {before : List Event} (goesOn : x.GoesOn x₁.regions) (active : x₁.pending.isActive = true)
      (slots : x₁.slots = x.slots) (stack : x₁.stack = x.stack) (on : x₁.SearchesOn below k z)
      (silent : ∀ callee caller pc, .returned callee caller pc ∉ before)
      (advance : x.advance p = ⟨before ++ (z.unwind z.available).events, (z.unwind z.available).result⟩)

theorem CallStep.same (suffix : c :: below <:+ y.stack.frames) : CallStep p x c below call k es y :=
  .kept suffix rfl rfl

theorem Carries.callStep {t : Transfer} {es' : List Event} (go : m₁.Carries t es' y) (before : List Event)
    (kind : c.kind = .call call) (caller : call.caller = some k) (suffix : c :: below <:+ m₁.stack.frames) (plain : t.isUnwind = false)
    (returning : ∀ value explicit, t = .ret value explicit → Returning p x m₁ value) (events : es = before ++ es') :
    CallStep p x c below call k es y := by
  rcases go.keeps_call kind caller suffix plain with h | ⟨value, back⟩
  · exact .same h
  · obtain ⟨explicit, ht⟩ := back.transfer
    exact .returned (returning value explicit ht) events back

theorem resume_unwind_callStep (before : List Event) {scope : Scope} {catches : List CatchClause}
    (kind : c.kind = .call call) (caller : call.caller = some k) (suffix : c :: below <:+ x.stack.frames)
    (goesOn : x.GoesOn m₁.regions) (active : m₁.pending.isActive = true) (slots : m₁.slots = x.slots)
    (stack : m₁.stack = x.stack) (silent : ∀ callee caller pc, .returned callee caller pc ∉ before)
    (advance : x.advance p = ⟨before ++ (m₁.resume (.unwind scope catches)).events,
      (m₁.resume (.unwind scope catches)).result⟩) (move : x.advance p = ⟨es, .ok y⟩) :
    CallStep p x c below call k es y := by
  rw [← stack] at suffix
  have result := (congrArg Transition.result advance).symm.trans (congrArg Transition.result move)
  unfold resume at advance result
  dsimp only at advance result
  split at advance
  · rename_i clause error hh
    rw [hh] at result
    cases result
    exact .same (suffix.trans (List.suffix_cons _ _))
  · rename_i hh
    rw [hh] at result
    dsimp only at result
    rcases unwind_removes kind caller rfl suffix rfl with ⟨es', w, hw, h⟩ | ⟨z, on, hz⟩
    · rw [hw] at result
      cases result
      exact .same h
    · rw [hz] at advance
      exact .left goesOn active slots stack on silent advance

/-- Every transition keeps the frame of a call, or a return or an error takes it off. -/
theorem WellFormed.callStep (wf : x.WellFormed p) (reach : Reachable p x) (kind : c.kind = .call call)
    (caller : call.caller = some k) (suffix : c :: below <:+ x.stack.frames) (move : x.advance p = ⟨es, .ok y⟩) :
    CallStep p x c below call k es y := by
  cases advance_move move with
  | @execute f i es' y runs function code go =>
    cases go with
    | bind h =>
      have hc : c.isTry = false := by rw [Frame.isTry, kind]
      obtain ⟨c', below', suffix', hk, hbelow⟩ := Stack.bind_outline h hc suffix
      exact .kept suffix' hk hbelow
    | push | call => exact .same (suffix.trans (List.suffix_cons _ _))
    | @pop f rest room top kind' =>
      have hf := wf.not_call_of_pop top (by omega)
      rcases suffix_push top suffix with ⟨rfl, -⟩ | suffix
      · rw [kind] at hf; cases hf
      · exact .same suffix
    | @popCleanup catches range f rest room top kind' =>
      rcases suffix_push top suffix with ⟨rfl, -⟩ | suffix
      · rw [kind] at kind'; cases kind'
      · exact .same suffix
    | ret hv go =>
      refine go.callStep [_] kind caller suffix rfl ?_ rfl
      rintro value explicit ⟨⟩
      exact .exits (.ret runs ⟨f, function, code⟩ hv)
    | exitLoop go => exact go.callStep [_] kind caller suffix rfl nofun rfl
    | branch | branchConstant => split <;> exact .same suffix
    | _ => exact .same suffix
  | fallOff runs function code go =>
    refine go.callStep [_] kind caller suffix rfl ?_ rfl
    rintro value explicit ⟨⟩
    exact .exits (.fallOff runs function code)
  | search active room go =>
    have hfloor : x.floor < x.stack.depth := by
      unfold floor
      split
      · rw [x.stack.depth_eq]
        exact Nat.lt_of_lt_of_le (Nat.succ_pos _) suffix.length_le
      · rename_i r outer hr
        exact room r outer hr
    exact resume_unwind_callStep [] kind caller suffix (.all (inside_search active room)) active rfl rfl
      (by simp) (advance_active active hfloor) move
  | @complete r outer x₁ es y ends go =>
    have hp : x₁.pending.isActive = r.transfer.isUnwind := by
      rw [← reach.pending_isActive r (by rw [ends.regions]; exact List.mem_cons_self ..)]
      cases ends; rfl
    cases ht : r.transfer with
    | unwind scope catches =>
      have advance : x.advance p = x₁.resume (.unwind scope catches) := ht ▸ ends.advance_completed
      rw [ht] at hp
      exact resume_unwind_callStep [] kind caller suffix (ends.regions_eq ▸ .ended ends) hp
        (by cases ends; rfl) ends.stack_eq (by simp) advance move
    | _ =>
      refine go.callStep [] kind caller (by rw [ends.stack_eq]; exact suffix) (by rw [ht]; rfl) ?_ rfl
      intro value explicit h
      exact .resumed ends h
  | @abandonSearch r outer x₁ scope catches es y ends transfer go =>
    have advance : x.advance p = ⟨[.cleanupThrew r.range] ++ (x₁.resume (.unwind .empty [])).events,
        (x₁.resume (.unwind .empty [])).result⟩ := by
      rw [ends.advance_threw, resume_unwind_nil]
      unfold abandon
      rw [transfer]
      cases ends; rfl
    exact resume_unwind_callStep _ kind caller suffix (ends.regions_eq ▸ .ended ends)
      (by cases ends with | threw regions active depth => exact active) (by cases ends; rfl) ends.stack_eq (by simp)
      advance move
  | abandonReturn ends transfer =>
    refine .same ?_
    show c :: below <:+ Stack.frames (Machine.stack _)
    rw [ends.stack_eq]; exact suffix
  | abandon ends transfer =>
    refine .same ?_
    rw [ends.stack_eq]; exact suffix

end

end SlotVM.Machine
