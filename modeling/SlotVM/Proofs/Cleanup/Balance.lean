/-
A law of conservation: the finally ranges of the `PushTry` instructions that a run has executed are those
of the blocks that it has begun and those that try frames still hold. It does not matter how a try frame is
left, nor whether a block throws in the middle of it.
-/
import SlotVM.Proofs.Machine.Reach

namespace SlotVM

/-- The function that owns the frames which lie directly on frames of these kinds. -/
def owner? (below : List FrameKind) : Option Nat := (topCall? below).map (·.2.function)

theorem AtTop.owner? {ks : List FrameKind} {function frame : Nat} (h : AtTop ks function frame) :
    owner? ks = some function := by
  obtain ⟨c, hc, rfl⟩ := h
  simp [SlotVM.owner?, hc]

/-! ## Finally ranges -/

/-- The finally range that a frame still holds, with the function that owns the frame. -/
def FrameKind.held (below : List FrameKind) : FrameKind → List (Nat × Span)
  | .attempt _ (some range) => (owner? below).toList.map (·, range)
  | _ => []

/-- The finally ranges that try frames still hold, each with the function that owns the frame. -/
def heldCleanups : List FrameKind → List (Nat × Span)
  | [] => []
  | k :: below => k.held below ++ heldCleanups below

/-- The finally range of an executed `PushTry`, with its function. -/
def Event.pushedCleanup? : Event → Option (Nat × Span)
  | .executing function _ (.pushTry _ cleanup) => cleanup.map (function, ·)
  | _ => none

/-- The range of a finally block that begins, with the running function. -/
def Event.begunCleanup? : Event → Option (Nat × Span)
  | .cleanupBegan function range _ => some (function, range)
  | _ => none

/-- The finally ranges of the `PushTry` instructions that were executed. -/
def pushedCleanups (log : List Event) : List (Nat × Span) := log.filterMap Event.pushedCleanup?

/-- The finally ranges of the blocks that have begun. -/
def begunCleanups (log : List Event) : List (Nat × Span) := log.filterMap Event.begunCleanup?

theorem pushedCleanups_append (log log' : List Event) :
    pushedCleanups (log ++ log') = pushedCleanups log ++ pushedCleanups log' := List.filterMap_append

theorem begunCleanups_append (log log' : List Event) :
    begunCleanups (log ++ log') = begunCleanups log ++ begunCleanups log' := List.filterMap_append

theorem heldCleanups_of_passes {t : Transfer} {k : FrameKind} (h : t.Passes k) (below : List FrameKind) :
    heldCleanups (k :: below) = heldCleanups below := by
  cases k with
  | attempt catches cleanup =>
    cases cleanup with
    | none => rfl
    | some range => simp [Transfer.Passes] at h
  | _ => rfl

theorem heldCleanups_attempt {below : List FrameKind} {function frame : Nat} (top : AtTop below function frame)
    (catches : List CatchClause) (range : Span) :
    heldCleanups (.attempt catches (some range) :: below) = (function, range) :: heldCleanups below := by
  simp [heldCleanups, FrameKind.held, top.owner?]

namespace Machine

variable {p : Program} {m m' : Machine} {es : List Event}

theorem kinds_top {f : Frame} {rest : Stack} (top : m.stack = rest.push f) :
    m.stack.kinds = f.kind :: rest.kinds := by
  rw [top, Stack.kinds_push]

/-- What a transition does to finally ranges: it pushes one or begins blocks, and the others stay held. -/
def Balanced (m : Machine) (es : List Event) (m' : Machine) : Prop :=
  pushedCleanups es ++ heldCleanups m.stack.kinds = begunCleanups es ++ heldCleanups m'.stack.kinds

/-- A transfer begins the finally block of a try frame that it takes off. -/
theorem Carries.balanced {t : Transfer} (go : m.Carries t es m') (wf : m.WellFormed p) : Balanced m es m' := by
  induction go with
  | popped | caught | uncaught => rfl
  | cleanup seeks room top kind =>
    obtain ⟨-, htop, -⟩ := wf.drop top (floor_lt_depth room) (by rw [kind]; rfl)
    unfold Balanced
    rw [kinds_top top, kind, heldCleanups_attempt htop]
    rfl
  | pass seeks room top passes go ih =>
    unfold Balanced
    rw [kinds_top top, heldCleanups_of_passes passes]
    exact ih (wf.drop top (floor_lt_depth room) passes.call?).1
  | abort seeks room top kind go ih =>
    have h := ih (wf.abort top (floor_lt_depth room) kind)
    unfold Balanced at h ⊢
    rw [goBack_stack] at h
    rw [kinds_top top, kind]
    exact h
  | left room top kind | returned room top kind | ended room top kind =>
    unfold Balanced
    rw [kinds_top top, kind]
    rfl

theorem Performs.balanced {i : Instruction} (go : m.Performs p i es m') (wf : m.WellFormed p)
    (top : AtTop m.stack.kinds m.function m.frame) :
    Balanced m (.executing m.function m.pc i :: es) m' := by
  cases go with
  | assign | setField | setIndex | setConstant | nop | jump | call | throw => rfl
  | raise h => cases i <;> first | rfl | cases h
  | branch | branchConstant => split <;> rfl
  | bind h =>
    show heldCleanups m.stack.kinds = heldCleanups _
    rw [← Stack.bind_kinds h]; rfl
  | @push i kind h =>
    cases i <;> cases h
    · rfl
    · rfl
    · rename_i catches cleanup
      cases cleanup with
      | none => rfl
      | some range =>
        exact (heldCleanups_attempt top catches range).symm
  | @pop f rest room top' kind =>
    show heldCleanups m.stack.kinds = heldCleanups rest.kinds
    rw [kinds_top top']
    cases hf : f.kind with
    | attempt catches cleanup =>
      cases cleanup with
      | none => rfl
      | some range => exact absurd hf (kind catches range)
    | _ => rfl
  | popCleanup room top' kind =>
    obtain ⟨-, htop, -⟩ := wf.drop top' (by omega) (by rw [kind]; rfl)
    unfold Balanced
    rw [kinds_top top', kind, heldCleanups_attempt htop]
    rfl
  | ret h go => exact go.balanced (wf.of_eq rfl rfl rfl rfl wf.pc)
  | exitLoop go => exact go.balanced wf

theorem Ends.balanced {r : Region} {outer : List Region} {exit : RegionExit} {m₁ : Machine}
    (ends : m.Ends r outer exit m₁) (h : Balanced m₁ es m') : Balanced m es m' := by
  unfold Balanced at h ⊢
  rwa [ends.stack_eq] at h

theorem Move.balanced (move : m.Move p es m') (wf : m.WellFormed p) (running : m.halted = false) :
    Balanced m es m' := by
  cases move with
  | execute runs function code go => exact go.balanced wf (wf.top_of_running running)
  | fallOff runs function code go => exact go.balanced (wf.of_eq rfl rfl rfl rfl wf.pc)
  | search active room go => exact go.balanced wf
  | complete ends go => exact ends.balanced (go.balanced (ends.wellFormed wf))
  | abandonSearch ends transfer go => exact ends.balanced (go.balanced (ends.wellFormed wf))
  | abandonReturn ends transfer | abandon ends transfer => exact ends.balanced rfl

/-- In a run that begins without try frames, the finally ranges that were pushed are those that were begun
and those that are still held. -/
theorem Run.cleanups {log : List Event} (run : m.Run p log m') (valid : p.Valid) (reach : Reachable p m)
    (none_held : heldCleanups m.stack.kinds = []) :
    (pushedCleanups log).Perm (begunCleanups log ++ heldCleanups m'.stack.kinds) := by
  induction run with
  | refl => rw [none_held]; exact .refl _
  | @step log es x y run running move ih =>
    have hb := (advance_move move).balanced ((run.reachable reach).wellFormed valid) running
    rw [pushedCleanups_append, begunCleanups_append, List.append_assoc, ← hb]
    refine (ih.append_right _).trans ?_
    rw [List.append_assoc]
    exact List.perm_append_comm.append_left _

end Machine

end SlotVM
