/-
What a transition leaves alone: the frames below a height that no transfer may go under. They stay as
they are, except that binding a name may change their scopes.
-/
import SlotVM.Proofs.Machine.Reach

namespace SlotVM.Machine

variable {p : Program} {m m' : Machine} {es : List Event} {l : List Frame}

theorem suffix_pop {f : Frame} {rest : Stack} (top : m.stack = rest.push f)
    (room : m.floor < m.stack.depth) (h : l <:+ m.stack.frames) (hl : l.length ≤ m.floor) :
    l <:+ rest.frames := by
  rw [top, Stack.frames_push] at h
  rw [top, Stack.depth_push] at room
  exact List.suffix_of_suffix_length_le h (List.suffix_cons f rest.frames)
    (by rw [← rest.depth_eq]; omega)

/-- A transfer takes no frame off below the floor. -/
theorem Carries.suffix {t : Transfer} (go : m.Carries t es m') (h : l <:+ m.stack.frames)
    (hl : l.length ≤ m.floor) : l <:+ m'.stack.frames := by
  induction go with
  | popped | uncaught => exact h
  | caught => exact h.trans (List.suffix_cons _ _)
  | pass seeks room top passes go ih => exact ih (suffix_pop top (floor_lt_depth room) h hl) hl
  | abort seeks room top kind go ih =>
    refine ih ?_ ?_
    · rw [goBack_stack]; exact suffix_pop top (floor_lt_depth room) h hl
    · unfold floor; rw [goBack_regions]; exact hl
  | cleanup seeks room top | left room top | returned room top | ended room top =>
    exact suffix_pop top (floor_lt_depth room) h hl

theorem Carries.regions {t : Transfer} (go : m.Carries t es m') :
    m'.regions = m.regions ∨ ∃ r, m'.regions = r :: m.regions := by
  induction go with
  | cleanup => exact .inr ⟨_, rfl⟩
  | pass seeks room top passes go ih => exact ih
  | abort seeks room top kind go ih => rw [goBack_regions] at ih; exact ih
  | _ => exact .inl rfl

theorem Performs.regions {i : Instruction} (go : m.Performs p i es m') :
    m'.regions = m.regions ∨ ∃ r, m'.regions = r :: m.regions := by
  cases go with
  | popCleanup => exact .inr ⟨_, rfl⟩
  | ret h go => exact go.regions
  | exitLoop go => exact go.regions
  | branch | branchConstant => split <;> exact .inl rfl
  | _ => exact .inl rfl

/-- An instruction other than a `Bind` leaves the frames below the floor as they are. -/
theorem Performs.suffix {i : Instruction} (go : m.Performs p i es m') (h : l <:+ m.stack.frames)
    (hl : l.length ≤ m.floor) : l <:+ m'.stack.frames ∨
      (m'.stack.kinds = m.stack.kinds ∧ ∃ name ref, i = .bind name ref) := by
  cases go with
  | bind hb => exact .inr ⟨Stack.bind_kinds hb, _, _, rfl⟩
  | push | call => exact .inl (h.trans (List.suffix_cons _ _))
  | pop room top | popCleanup room top => exact .inl (suffix_pop top (by omega) h hl)
  | ret hv go => exact .inl (go.suffix h hl)
  | exitLoop go => exact .inl (go.suffix h hl)
  | branch | branchConstant => left; split <;> exact h
  | _ => exact .inl h

end SlotVM.Machine
