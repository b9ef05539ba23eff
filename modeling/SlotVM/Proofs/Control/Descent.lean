/-
Returns and exits from loops go down the stack. They take frames off until they come to the frame that they are
meant for, and begin the finally block of every try frame on the way. `Continues.descent`: whatever the blocks
that have come to their ends did, the frames that are left are those of the beginning, and so is what the transfer
still has to do; `Descent.ends`: if all blocks come to their ends, so does the transfer.
-/
import SlotVM.Proofs.Control.Handler
import SlotVM.Proofs.Store.Written

namespace SlotVM

open Transition

/-! ## Loops by height -/

/-- Whether a frame belongs to a loop. -/
def FrameKind.isLoop : FrameKind → Bool
  | .loop _ _ => true
  | _ => false

/-- The number of loop frames from the height `n` up. -/
def loopsFrom (n : Nat) (ks : List FrameKind) : Nat := (ks.take (ks.length - n)).countP FrameKind.isLoop

theorem loopsFrom_length (ks : List FrameKind) : loopsFrom ks.length ks = 0 := by
  simp [loopsFrom]

/-- Going down by one frame adds that frame. -/
theorem loopsFrom_of_suffix {k : FrameKind} {l ks : List FrameKind} (h : k :: l <:+ ks) :
    loopsFrom l.length ks = loopsFrom (l.length + 1) ks + if k.isLoop then 1 else 0 := by
  obtain ⟨above, rfl⟩ := h
  have low : (above ++ k :: l).length - l.length = (above ++ [k]).length := by simp; omega
  have high : (above ++ k :: l).length - (l.length + 1) = above.length := by simp
  have split : above ++ k :: l = above ++ [k] ++ l := by simp
  rw [loopsFrom, loopsFrom, low, high, List.take_left, split, List.take_left, List.countP_append,
    List.countP_singleton]

/-- There are no fewer loops from a lower height up. -/
theorem loopsFrom_anti {i j : Nat} (h : i ≤ j) (ks : List FrameKind) : loopsFrom j ks ≤ loopsFrom i ks :=
  (List.take_sublist_take_left (by omega)).countP_le

/-- A frame lies on the frames that are lower. -/
theorem Stack.kinds_of_get? {s : Stack} {i : Nat} {k : FrameKind} (h : (s.get? i).map Frame.kind = some k) :
    k :: bottom i s.kinds <:+ s.kinds := by
  induction s using push_induction with
  | empty => cases h
  | push s f ih =>
    rw [get?_push] at h
    -- it is the top frame, or one of those below
    split at h
    · rename_i hi
      cases h
      have below : bottom i (s.push f).kinds = s.kinds := by
        rw [hi, kinds_push, ← length_kinds, bottom_cons _ (Nat.le_refl _), bottom_length]
      exact below.symm ▸ List.suffix_rfl
    · obtain ⟨g, hg, -⟩ := Option.map_eq_some_iff.1 h
      have hlt := lt_depth_of_get? hg
      rw [kinds_push, bottom_cons _ (by rw [length_kinds]; omega)]
      exact (ih h).trans (List.suffix_cons _ _)

theorem AtTop.lt_length {ks : List FrameKind} {function frame : Nat} (h : AtTop ks function frame) :
    frame < ks.length := by
  obtain ⟨c, hc, -⟩ := h
  exact topCall?_lt hc

/-! ## What is left of a transfer -/

/-- What remains of a return, or of an exit from loops, when it has passed some loops. -/
def Transfer.Remains (loops : Nat) : Transfer → Transfer → Prop
  | .ret value explicit, t => t = .ret value explicit
  | .exitLoop exit depth all, t => ∃ remaining, remaining + loops = all ∧ t = .exitLoop exit depth remaining
  | .pop, _ | .unwind _ _, _ => False

/-- A loop frame that is passed is one loop less to be left. -/
theorem Transfer.Remains.past {t t₀ : Transfer} {loops : Nat} {f : Frame} (h : t₀.Remains loops t)
    (passes : t.Passes f.kind) : t₀.Remains (loops + if f.kind.isLoop then 1 else 0) (t.past f) := by
  obtain ⟨scope, kind⟩ := f
  cases t₀ with
  | ret value explicit => cases h; rfl
  | exitLoop exit depth all =>
    obtain ⟨remaining, rfl, rfl⟩ := h
    cases remaining with
    | zero =>
      -- the loop that is to be left is not passed
      cases kind with
      | loop => exact passes.elim
      | _ => exact ⟨0, rfl, rfl⟩
    | succ remaining =>
      cases kind with
      | loop => exact ⟨remaining, by show remaining + (loops + 1) = _; omega, rfl⟩
      | _ => exact ⟨remaining + 1, rfl, rfl⟩
  | pop | unwind => exact h.elim

namespace Machine

variable {p : Program} {m w x y z : Machine} {t t₀ : Transfer} {loops : Nat} {f : Frame} {rest : Stack}
  {blocks : List (Nat × Span)}

/-! ## One frame -/

/-- What a return, or an exit from loops, does at the first frame of `z` that it does not pass. -/
inductive Meets (z : Machine) : Transfer → Transition → Prop
  /-- A try frame is taken off and its finally block begins. -/
  | cleanup {t : Transfer} {catches range} {f : Frame} {rest : Stack} (room : 0 < z.available)
      (top : z.stack = rest.push f) (kind : f.kind = .attempt catches (some range)) :
      Meets z t ({ z with stack := rest }.enter range t)
  /-- The loop to be left is reached. -/
  | loop {exit depth start stop} {f : Frame} {rest : Stack} (room : 0 < z.available) (top : z.stack = rest.push f)
      (kind : f.kind = .loop start stop) : Meets z (.exitLoop exit depth 0)
        (note (.loopLeft exit depth (exit.target start stop))
          (done { z with stack := rest, pc := exit.target start stop }))
  | noLoop {exit depth remaining call} {f : Frame} {rest : Stack} (room : 0 < z.available)
      (top : z.stack = rest.push f) (kind : f.kind = .call call) :
      Meets z (.exitLoop exit depth remaining) (fail (z.faultHere (.noLoop exit depth)))
  | exitAtFloor {exit depth remaining} (empty : z.available = 0) :
      Meets z (.exitLoop exit depth remaining) (fail (z.faultHere (.exitLeavesCleanup exit)))
  /-- The frame of the function that returns is reached. -/
  | call {value explicit call} {f : Frame} {rest : Stack} (room : 0 < z.available) (top : z.stack = rest.push f)
      (kind : f.kind = .call call) : Meets z (.ret value explicit) ({ z with stack := rest }.deliver call value)
  | returnAtFloor {value explicit fault} (empty : z.available = 0) : Meets z (.ret value explicit) (fail fault)

/-- A transfer passes the top frame of `z`, or the frame stops it. -/
def PassesOrMeets (z : Machine) (t : Transfer) : Prop :=
  (∃ f rest, 0 < z.available ∧ z.stack = Stack.push rest f ∧ t.Passes f.kind ∧
    z.resume t = { z with stack := rest }.resume (t.past f)) ∨ Meets z t (z.resume t)

theorem available_eq_zero_or (z : Machine) : z.available = 0 ∨ ∃ (scope : Scope) (kind : FrameKind) (rest : Stack),
    0 < z.available ∧ z.stack = rest.push ⟨scope, kind⟩ ∧ z.stack.pop? = some (⟨scope, kind⟩, rest) ∧
      z.available = { z with stack := rest }.available + 1 := by
  rcases Nat.eq_zero_or_pos z.available with empty | room
  · exact .inl empty
  · obtain ⟨⟨⟨scope, kind⟩, rest⟩, hpop⟩ := Option.ne_none_iff_exists'.1 (pop?_available room)
    have top := Stack.eq_push_of_pop? hpop
    obtain ⟨n, hn⟩ := Nat.exists_eq_succ_of_ne_zero (Nat.ne_of_gt room)
    exact .inr ⟨scope, kind, rest, room, top, hpop, by rw [available_pop top hn, hn]⟩

theorem resume_ret (z : Machine) (value : Option Value) (explicit : Bool) :
    z.PassesOrMeets (.ret value explicit) := by
  have resume : z.resume (.ret value explicit) = z.leaveFunction value explicit z.available := rfl
  rcases z.available_eq_zero_or with empty | ⟨scope, kind, rest, room, top, hpop, hn⟩
  · rw [PassesOrMeets, resume, empty]
    exact .inr (.returnAtFloor empty)
  · have pass : (Transfer.ret value explicit).Passes kind → z.resume (.ret value explicit) =
        { z with stack := rest }.leaveFunction value explicit _ → z.PassesOrMeets (.ret value explicit) :=
      fun passes go => .inl ⟨_, rest, room, top, passes, go⟩
    rw [hn, leaveFunction, hpop] at resume
    cases kind with
    | call call => exact .inr (resume ▸ .call room top rfl)
    | attempt catches cleanup =>
      cases cleanup with
      | none => exact pass trivial resume
      | some range => exact .inr (resume ▸ .cleanup room top rfl)
    | scope | loop => exact pass trivial resume

theorem resume_exitLoop (z : Machine) (exit : LoopExit) (depth remaining : Nat) :
    z.PassesOrMeets (.exitLoop exit depth remaining) := by
  have resume : z.resume (.exitLoop exit depth remaining) = z.exitLoop exit depth remaining z.available := rfl
  rcases z.available_eq_zero_or with empty | ⟨scope, kind, rest, room, top, hpop, hn⟩
  · rw [PassesOrMeets, resume, empty]
    exact .inr (.exitAtFloor empty)
  · have pass : (Transfer.exitLoop exit depth remaining).Passes kind → z.resume (.exitLoop exit depth remaining) =
        { z with stack := rest }.resume ((Transfer.exitLoop exit depth remaining).past ⟨scope, kind⟩) →
        z.PassesOrMeets (.exitLoop exit depth remaining) :=
      fun passes go => .inl ⟨_, rest, room, top, passes, go⟩
    rw [hn, exitLoop, hpop] at resume
    cases kind with
    | call call => exact .inr (resume ▸ .noLoop room top rfl)
    | loop start stop =>
      cases remaining with
      | zero => exact .inr (resume ▸ .loop room top rfl)
      | succ remaining => exact pass trivial resume
    | attempt catches cleanup =>
      cases cleanup with
      | none => cases remaining <;> exact pass trivial resume
      | some range => exact .inr (resume ▸ .cleanup room top rfl)
    | scope => cases remaining <;> exact pass trivial resume

theorem resume_passesOrMeets (remains : t₀.Remains loops t) : z.PassesOrMeets t := by
  cases t₀ with
  | ret value explicit => cases remains; exact resume_ret ..
  | exitLoop exit depth all =>
    obtain ⟨remaining, -, rfl⟩ := remains
    exact resume_exitLoop ..
  | pop | unwind => exact remains.elim

/-! ## Down the stack -/

theorem Ends.constants_eq {r : Region} {outer : List Region} {exit : RegionExit} (ends : m.Ends r outer exit z) :
    z.constants = m.constants := by
  cases ends <;> rfl

/-- The machine `z` goes on where `m` is. -/
structure InPlace (m z : Machine) : Prop where
  function : z.function = m.function
  frame : z.frame = m.frame
  pc : z.pc = m.pc
  pending : z.pending = m.pending
  regions : z.regions = m.regions

theorem InPlace.pop (h : InPlace m z) (rest : Stack) : InPlace m { z with stack := rest } :=
  ⟨h.function, h.frame, h.pc, h.pending, h.regions⟩

theorem Restores.inPlace {e : Machine} (h : Restores e z) (place : InPlace m e) : InPlace m z where
  function := h.function.trans place.function
  frame := h.frame.trans place.frame
  pc := h.pc.trans place.pc
  pending := h.pending.trans place.pending
  regions := h.regions.trans place.regions

/-- When the top frame is a function's, it is that of the running function. -/
theorem WellFormed.frame_eq (wf : z.WellFormed p) (top : z.stack = rest.push f) {call : CallFrame}
    (kind : f.kind = .call call) : z.frame = rest.depth := by
  obtain ⟨c, hc, -⟩ := wf.top_push top
  rw [kind, rest.topCall?_call, Option.some.injEq, Prod.mk.injEq] at hc
  exact hc.1.symm

/-- The transfer `t₀` of `m` has come down to the frames of `z`, and `t` is left of it; `blocks` are the finally
ranges that the frames above held. -/
structure Descends (m : Machine) (t₀ : Transfer) (blocks : List (Nat × Span)) (z : Machine) (t : Transfer) :
    Prop where
  kinds : z.stack.kinds <:+ m.stack.kinds
  place : InPlace m z
  remains : t₀.Remains (loopsFrom z.stack.depth m.stack.kinds) t
  blocks : blocks = cleanupsFrom z.stack.depth m.stack.kinds

namespace Descends

theorem begin (kinds : z.stack.kinds = m.stack.kinds) (place : InPlace m z) (whole : t₀.Remains 0 t₀) :
    Descends m t₀ [] z t₀ := by
  have hdepth : z.stack.depth = m.stack.kinds.length := by rw [← kinds, Stack.length_kinds]
  refine ⟨kinds ▸ List.suffix_rfl, place, ?_, ?_⟩
  · rwa [hdepth, loopsFrom_length]
  · rw [hdepth, cleanupsFrom_length]

/-- The frames below the top one are those of `m`. -/
theorem below (h : Descends m t₀ blocks z t) (top : z.stack = rest.push f) :
    rest.kinds = bottom rest.depth m.stack.kinds := by
  have hk : f.kind :: rest.kinds <:+ m.stack.kinds := kinds_top top ▸ h.kinds
  rw [← Stack.length_kinds, bottom_of_suffix ((List.suffix_cons _ _).trans hk)]

/-- The frames from the top one up held the blocks, and what the top one holds. -/
theorem cleanups_below (h : Descends m t₀ blocks z t) (top : z.stack = rest.push f) :
    cleanupsFrom rest.depth m.stack.kinds = blocks ++ f.kind.held rest.kinds := by
  have hk : f.kind :: rest.kinds <:+ m.stack.kinds := kinds_top top ▸ h.kinds
  rw [h.blocks, top, Stack.depth_push, ← Stack.length_kinds, cleanupsFrom_of_suffix hk]

/-- One frame is taken off. -/
theorem pop (h : Descends m t₀ blocks z t) (top : z.stack = rest.push f) {t' : Transfer}
    (remains : t₀.Remains (loopsFrom z.stack.depth m.stack.kinds + if f.kind.isLoop then 1 else 0) t') :
    Descends m t₀ (blocks ++ f.kind.held rest.kinds) { z with stack := rest } t' := by
  have hk : f.kind :: rest.kinds <:+ m.stack.kinds := kinds_top top ▸ h.kinds
  rw [top, Stack.depth_push, ← Stack.length_kinds, ← loopsFrom_of_suffix hk, Stack.length_kinds] at remains
  exact ⟨(List.suffix_cons _ _).trans hk, h.place.pop rest, remains, (h.cleanups_below top).symm⟩

theorem pass (h : Descends m t₀ blocks z t) (top : z.stack = rest.push f) (passes : t.Passes f.kind) :
    Descends m t₀ blocks { z with stack := rest } (t.past f) := by
  have hheld : f.kind.held rest.kinds = [] := by
    cases hf : f.kind with
    | attempt catches cleanup =>
      rw [hf] at passes
      cases cleanup with
      | none => rfl
      | some range => exact passes.elim
    | _ => rfl
  simpa only [hheld, List.append_nil] using h.pop top (h.remains.past passes)

/-- A try frame that is taken off holds the next block. -/
theorem interrupt (h : Descends m t₀ blocks z t) (wf : z.WellFormed p) (room : 0 < z.available)
    (top : z.stack = rest.push f) {catches : List CatchClause} {range : Span}
    (kind : f.kind = .attempt catches (some range)) :
    Descends m t₀ (blocks ++ [(z.function, range)]) { z with stack := rest } t := by
  obtain ⟨-, htop, -⟩ := wf.drop top (floor_lt_depth room) (by rw [kind]; rfl)
  have hheld : f.kind.held rest.kinds = [(z.function, range)] := by
    rw [kind, FrameKind.held, htop.owner?]; rfl
  have remains := h.remains
  rw [← hheld]
  exact h.pop top (by rw [kind]; exact remains)

/-- A block that has come to its end gives back the frames that it found. -/
theorem restored (h : Descends m t₀ blocks w t) (back : Restores w z) : Descends m t₀ blocks z t := by
  have hdepth : z.stack.depth = w.stack.depth := by rw [← Stack.length_kinds, back.kinds, Stack.length_kinds]
  exact ⟨back.kinds ▸ h.kinds, back.inPlace h.place, hdepth ▸ h.remains, hdepth ▸ h.blocks⟩

end Descends

/-- The transition of `x` carries on the transfer `t₀` of `m`, at the frames of `z`. -/
structure Descent (p : Program) (m : Machine) (t₀ : Transfer) (blocks : List (Nat × Span)) (x z : Machine)
    (t : Transfer) : Prop where
  reach : Reachable p x
  running : x.halted = false
  advance : ∃ before, (∀ function range depth, .cleanupBegan function range depth ∉ before) ∧
    x.advance p = ⟨before ++ (z.resume t).events, (z.resume t).result⟩
  slots : z.slots = x.slots
  constants : z.constants = x.constants
  wellFormed : z.WellFormed p
  owned : z.stack.kinds ≠ []
  descends : Descends m t₀ blocks z t

namespace Descent

/-- The frames that a transfer passes do not show in its transition. -/
theorem meets (h : Descent p m t₀ blocks x z t) :
    ∃ z' t', Descent p m t₀ blocks x z' t' ∧ Meets z' t' (z'.resume t') ∧ z'.stack.depth ≤ z.stack.depth := by
  induction hn : z.stack.depth using Nat.strongRecOn generalizing z t with
  | ind n ih =>
    rcases resume_passesOrMeets h.descends.remains with ⟨f, rest, room, top, passes, go⟩ | meets
    · -- the machine `x` is the same, only less of its transition is left
      obtain ⟨wf, htop, -⟩ := h.wellFormed.drop top (floor_lt_depth room) passes.call?
      have hdepth : rest.depth < n := by rw [← hn, top, Stack.depth_push]; omega
      have lower : Descent p m t₀ blocks x { z with stack := rest } (t.past f) :=
        ⟨h.reach, h.running, go ▸ h.advance, h.slots, h.constants, wf, htop.ne_nil, h.descends.pass top passes⟩
      obtain ⟨z', t', h', meets, le⟩ := ih rest.depth hdepth lower rfl
      exact ⟨z', t', h', meets, Nat.le_trans le (Nat.le_of_lt hdepth)⟩
    · exact ⟨z, t, h, meets, Nat.le_of_eq hn⟩

end Descent

/-! ## The blocks on the way -/

/-- The finally block that begins in `e` is the next one of a transfer of `m`, after the given ones. It belongs to a
try frame of the running function; that frame and all above it are gone, and the others are still there. -/
structure NextCleanup (p : Program) (m : Machine) (blocks : List (Nat × Span)) (e : Machine) (range : Span)
    (t : Transfer) : Prop where
  attempt : ∃ catches, (m.stack.get? e.stack.depth).map Frame.kind = some (.attempt catches (some range))
  floor : m.floor ≤ e.stack.depth
  owned : m.frame < e.stack.depth
  kinds : e.stack.kinds = bottom e.stack.depth m.stack.kinds
  place : InPlace m e
  blocks : blocks = cleanupsFrom (e.stack.depth + 1) m.stack.kinds
  /-- All through the block these frames stay, and its function has the parameters of before. -/
  kept : ∀ w, During p (e.region range t) e.regions (e.entered range t) w → e.stack.kinds <:+ w.stack.kinds
  params : ∀ w, During p (e.region range t) e.regions (e.entered range t) w → w.frame = m.frame →
    ∀ index, w.param index = m.param index

/-- The block that began in `e` threw an error, in `w`, and the transfer of `m` that it interrupted was given up, in
`y`. The error is still active, and the frames of `m` below the try frame of the block are left. -/
structure GivenUp (m e w y : Machine) : Prop where
  pending : ∃ error, w.pending = .active error ∧ y.pending = .active error
  kinds : y.stack.kinds = bottom e.stack.depth m.stack.kinds
  depth : y.stack.depth = e.stack.depth
  function : y.function = m.function
  frame : y.frame = m.frame
  pc : y.pc = m.pc
  regions : y.regions = m.regions
  slots : y.slots = w.slots
  constants : y.constants = w.constants

theorem param_eq (frame : w.frame = m.frame)
    (kind : (w.stack.get? m.frame).map Frame.kind = (m.stack.get? m.frame).map Frame.kind) (index : Nat) :
    w.param index = m.param index := by
  unfold param Stack.callFrame
  rw [frame, kind]

namespace Descent

variable {e : Machine} {range : Span} {t' : Transfer}

/-- A block that begins is that of the first frame that the transfer does not pass. -/
theorem begins (h : Descent p m t₀ blocks x z t) (meets : Meets z t (z.resume t)) (begins : Begins p x e range t') :
    ∃ f rest catches, 0 < z.available ∧ z.stack = Stack.push rest f ∧ f.kind = .attempt catches (some range) ∧
      e = { z with stack := rest } ∧ t' = t := by
  obtain ⟨before, silent, advance⟩ := h.advance
  obtain ⟨before', hbegins⟩ := begins
  obtain ⟨hevents, hresult⟩ := Transition.mk.inj (advance.symm.trans hbegins)
  have hevent : .cleanupBegan e.function range e.stack.depth ∈ (z.resume t).events := by
    have : .cleanupBegan e.function range e.stack.depth ∈ before ++ (z.resume t).events := by
      rw [hevents]
      exact List.mem_append_right _ (List.mem_cons_self ..)
    exact (List.mem_append.1 this).resolve_left (silent _ _ _)
  generalize z.resume t = tr at meets hevent hresult
  -- of all that can stop a transfer, only a try frame begins a block
  cases meets with
  | @cleanup t catches range f rest room top kind =>
    obtain ⟨rfl, rfl, rfl⟩ := entered_inj (Except.ok.inj hresult)
    exact ⟨f, rest, catches, room, top, kind, rfl, rfl⟩
  | loop => simp [note, done] at hevent
  | call =>
    unfold deliver at hevent
    split at hevent <;> simp [note, done] at hevent
  | noLoop | exitAtFloor | returnAtFloor => cases hresult

/-- A try frame that still holds a finally block is taken off, and the block begins. -/
theorem interrupts (h : Descent p m t₀ blocks x z t)
    (go : z.resume t = { z with stack := rest }.enter range t) : Begins p x { z with stack := rest } range t := by
  obtain ⟨before, -, advance⟩ := h.advance
  exact ⟨before, go ▸ advance⟩

/-- The block that begins is the next one. -/
theorem nextCleanup (h : Descent p m t₀ blocks x z t) (valid : p.Valid) (meets : Meets z t (z.resume t))
    (begins : Begins p x e range t') : NextCleanup p m blocks e range t' := by
  obtain ⟨f, rest, catches, room, top, kind, rfl, rfl⟩ := h.begins meets begins
  obtain ⟨before, move⟩ := begins
  have hk : f.kind :: rest.kinds <:+ m.stack.kinds := kinds_top top ▸ h.descends.kinds
  have hrest : rest.kinds <:+ m.stack.kinds := (List.suffix_cons _ _).trans hk
  have hdepth : z.stack.depth = rest.depth + 1 := by rw [top, Stack.depth_push]
  obtain ⟨-, htop, -⟩ := h.wellFormed.drop top (floor_lt_depth room) (by rw [kind]; rfl)
  have hframe : m.frame < rest.depth := by
    have := htop.lt_length
    rwa [Stack.length_kinds, h.descends.place.frame] at this
  have kept : ∀ w, During p _ z.regions (entered { z with stack := rest } range t') w →
      rest.kinds <:+ w.stack.kinds :=
    fun w during => (during.spec valid (h.reach.advance h.running move) List.suffix_rfl rfl).2.2
  refine ⟨⟨catches, ?_⟩, ?_, hframe, ?_, h.descends.place.pop rest, hdepth ▸ h.descends.blocks, kept, ?_⟩
  · have : rest.depth < z.stack.depth := by omega
    rw [Stack.map_kind_get?_of_suffix h.descends.kinds this, top, Stack.get?_push, if_pos rfl, Option.map_some, kind]
  · have := floor_lt_depth room
    rw [floor, h.descends.place.regions, hdepth] at this
    exact Nat.le_of_lt_succ this
  · exact h.descends.below top
  · -- the frame of the function, which holds its arguments, is one of those that stay
    intro w during frame index
    refine param_eq frame ?_ index
    rw [Stack.map_kind_get?_of_suffix (kept w during) hframe, Stack.map_kind_get?_of_suffix hrest hframe]

/-- When a block that has interrupted the transfer is at its end, the transfer goes on below its frame. -/
theorem next (h : Descent p m t₀ blocks x z t) (valid : p.Valid) (meets : Meets z t (z.resume t))
    (begins : Begins p x e range t') (completes : Completes p e range t' y) :
    ∃ z', Descent p m t₀ (blocks ++ [(e.function, range)]) y z' t ∧ z'.stack.depth < z.stack.depth := by
  obtain ⟨f, rest, catches, room, top, kind, rfl, rfl⟩ := h.begins meets begins
  obtain ⟨before, move⟩ := begins
  obtain ⟨hy, running, z', ends, wf, owned, back⟩ := completes.restored valid (h.reach.advance h.running move)
  have descends := (h.descends.interrupt h.wellFormed room top kind).restored back
  refine ⟨z', ⟨hy, running, ⟨[], by simp, ends.advance_completed⟩, ends.slots_eq, ends.constants_eq, wf, owned,
    descends⟩, ?_⟩
  have : z'.stack.depth = rest.depth := by rw [← Stack.length_kinds, back.kinds, Stack.length_kinds]
  rw [this, top, Stack.depth_push]
  omega

/-- Whatever the blocks did that came to their ends, the transfer goes on as it began. -/
theorem continues (h : Descent p m t₀ [] m z t) (valid : p.Valid) (continues : Continues p m blocks x) :
    ∃ z' t', Descent p m t₀ blocks x z' t' ∧ Meets z' t' (z'.resume t') := by
  induction continues with
  | begin =>
    obtain ⟨z', t', h', meets, -⟩ := h.meets
    exact ⟨z', t', h', meets⟩
  | block continues begins completes ih =>
    -- the block gives back the stack below its frame, and from there the transfer goes on
    obtain ⟨z', t', h', meets⟩ := ih
    obtain ⟨z'', h'', -⟩ := h'.next valid meets begins completes
    obtain ⟨z₃, t₃, h₃, meets₃, -⟩ := h''.meets
    exact ⟨z₃, t₃, h₃, meets₃⟩

/-- Each block takes a frame off, so a transfer whose blocks come to their ends has a last one. -/
theorem last (h : Descent p m t₀ blocks x z t) (valid : p.Valid) (continues : Continues p m blocks x)
    (complete : CleanupsComplete p m) :
    ∃ blocks x, Continues p m blocks x ∧ ∀ e range t, ¬ Begins p x e range t := by
  induction hn : z.stack.depth using Nat.strongRecOn generalizing blocks x z t with
  | ind n ih =>
    obtain ⟨z', t', h', meets, le⟩ := h.meets
    by_cases another : ∃ e range t, Begins p x e range t
    · obtain ⟨e, range, t'', begins⟩ := another
      obtain ⟨y, completes⟩ := complete continues begins
      obtain ⟨z'', h'', lt⟩ := h'.next valid meets begins completes
      exact ih z''.stack.depth (by omega) h'' (continues.block begins completes) rfl
    · exact ⟨blocks, x, continues, fun e range t begins => another ⟨e, range, t, begins⟩⟩

/-- A block that throws ends the transfer that it has interrupted. -/
theorem givenUp (h : Descent p m t₀ blocks x z t) (valid : p.Valid) (meets : Meets z t (z.resume t))
    (begins : Begins p x e range t') (during : During p (e.region range t') e.regions (e.entered range t') w)
    (ends : w.Ends (e.region range t') e.regions .threw y) :
    ∃ es y', w.advance p = ⟨es, .ok y'⟩ ∧ GivenUp m e w y' ∧
      ∀ value explicit, t₀ = .ret value explicit → y'.returned = none := by
  obtain ⟨f, rest, catches, room, top, kind, rfl, rfl⟩ := h.begins meets begins
  obtain ⟨before, move⟩ := begins
  obtain ⟨hw, -, hkinds⟩ := during.spec valid (h.reach.advance h.running move) List.suffix_rfl rfl
  have wf := hw.wellFormed valid
  obtain ⟨function, frame, pc⟩ := ends.registers wf
  have place := h.descends.place
  have hdepth : y.stack.depth = rest.depth := by rw [ends.stack_eq, ends.depth_eq wf]; rfl
  have kinds : rest.kinds = y.stack.kinds := by
    rw [ends.stack_eq]
    refine hkinds.eq_of_length ?_
    rw [Stack.length_kinds, Stack.length_kinds, ends.depth_eq wf]; rfl
  have pending : ∃ error, w.pending = .active error ∧ y.pending = .active error := by
    cases ends with
    | threw regions active depth =>
      cases hp : w.pending with
      | active error => exact ⟨error, rfl, hp⟩
      | _ => rw [hp] at active; cases active
  have up : GivenUp m { z with stack := rest } w y := by
    refine ⟨pending, ?_, hdepth, function.trans place.function, frame.trans place.frame, pc.trans place.pc,
      ends.regions_eq.trans place.regions, ends.slots_eq, ends.constants_eq⟩
    rw [← kinds, h.descends.below top]
  have remains := h.descends.remains
  have advance := ends.advance_threw (p := p)
  cases ends
  -- only a return does more than to give the transfer up: it forgets a value that the block returned
  cases t₀ with
  | ret value explicit =>
    cases remains
    exact ⟨_, _, advance, { up with }, fun _ _ _ => rfl⟩
  | exitLoop exit depth all =>
    obtain ⟨remaining, -, rfl⟩ := remains
    exact ⟨_, _, advance, up, nofun⟩
  | pop | unwind => exact remains.elim

end Descent

end Machine

end SlotVM
