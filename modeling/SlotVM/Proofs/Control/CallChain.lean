/-
The function frames of a running machine form a chain. It begins with the frame of the entry function at
the bottom of the stack; every other function frame continues the next lower one at the `Call` that pushed
it; and the registers of the machine repeat what the topmost one says. `Reachable.callChain`: this holds at
every moment of every run of a valid program, inside of finally blocks too.
-/
import SlotVM.Proofs.Machine.Reach

namespace SlotVM

variable {p : Program}

/-! ## Frames by height -/

/-- A frame of a stacked stack can lie on the frames that are lower. -/
theorem Stacked.rests_get? {s : Stack} (h : Stacked p s.kinds) {i : Nat} {f : Frame} (hf : s.get? i = some f) :
    f.kind.Rests p (bottom i s.kinds) := by
  induction s using Stack.push_induction with
  | empty => exact absurd (Stack.lt_depth_of_get? hf) (Nat.not_lt_zero i)
  | push s g ih =>
    obtain ⟨hg, hs⟩ := h
    rw [Stack.get?_push] at hf
    split at hf
    · rename_i hi
      cases hf
      rw [Stack.kinds_push, hi, ← Stack.length_kinds, bottom_cons _ (Nat.le_refl _), bottom_length]
      exact hg
    · have hlt := Stack.lt_depth_of_get? hf
      rw [Stack.kinds_push, bottom_cons _ (by rw [Stack.length_kinds]; omega)]
      exact ih hs hf

theorem get?_of_call? {s : Stack} {i : Nat} {c : CallFrame} (h : s.call? i = some c) :
    s.get? i = some ⟨((s.get? i).getD default).scope, .call c⟩ := by
  obtain ⟨⟨scope, kind⟩, hf, hk⟩ := Option.bind_eq_some_iff.1 h
  cases kind <;> cases hk
  rw [hf]; rfl

theorem Stack.call?_of_kind {s : Stack} {i : Nat} {c : CallFrame} (h : (s.get? i).map Frame.kind = some (.call c)) :
    s.call? i = some c := by
  obtain ⟨f, hf, kind⟩ := Option.map_eq_some_iff.1 h
  rw [Stack.call?, hf, Option.bind_some, kind]; rfl

/-- A function frame is the entry function's, at the bottom, or was pushed by a call from the nearest
function frame below it. -/
theorem Stacked.call? {s : Stack} (h : Stacked p s.kinds) {i : Nat} {c : CallFrame} (hc : s.call? i = some c) :
    (c.IsEntry ∧ i = 0) ∨ ∃ k d, s.callBelow? i = some (k, d) ∧ c.CalledFrom p k d := by
  have hf := get?_of_call? hc
  have hi := Nat.le_of_lt (Stack.lt_depth_of_get? hf)
  rw [Stack.callBelow?_eq_topCall? hi]
  rcases (h.rests_get? hf).call with ⟨entry, hb⟩ | called
  · refine .inl ⟨entry, ?_⟩
    rw [← length_bottom (n := i) (l := s.kinds) (by rwa [Stack.length_kinds]), hb]; rfl
  · exact .inr called

/-- The lowest frame is the entry function's. -/
theorem Stacked.entry {s : Stack} (h : Stacked p s.kinds) (hne : s.kinds ≠ []) :
    ∃ c, s.call? 0 = some c ∧ c.IsEntry := by
  obtain ⟨f, hf⟩ := Stack.get?_of_lt (s := s) (i := 0) <| by
    rw [← Stack.length_kinds]
    exact List.length_pos_iff.2 hne
  have hr := h.rests_get? hf
  have hb : bottom 0 s.kinds = [] := by simp [bottom]
  rw [hb] at hr
  cases hk : f.kind.call? with
  | none => simp [FrameKind.Rests, hk, topCall?] at hr
  | some c =>
    refine ⟨c, by rw [Stack.call?, hf]; exact hk, ?_⟩
    simpa [FrameKind.Rests, hk, topCall?] using hr

namespace Machine

variable {m : Machine}

/-- The chain of function frames, and the registers that repeat what it says. -/
structure CallChain (m : Machine) (p : Program) : Prop where
  entry : ∃ c, m.stack.call? 0 = some c ∧ c.IsEntry
  /-- Only the entry function has no caller. -/
  only_entry : ∀ i c, m.stack.call? i = some c → c.caller = none → i = 0
  /-- Every other function was called from the next lower function frame. -/
  linked : ∀ i c, m.stack.call? i = some c → i ≠ 0 →
    ∃ k d, m.stack.callBelow? i = some (k, d) ∧ c.CalledFrom p k d
  /-- The running function is that of the topmost function frame. -/
  running : ∃ c, m.stack.callBelow? m.stack.depth = some (m.frame, c) ∧ c.function = m.function
  /-- An error that is in search of a handler is recorded. Every machine has this by its type: `Pending` has no state
  in which `error_context` is set and `error` is empty, because no write of the two makes it. -/
  pending : m.pending.isActive = true → ∃ error, m.pending.error? = some error

/-- The chain holds of every running machine that starts and transitions of a valid program lead to. -/
theorem Reachable.callChain (h : Reachable p m) (valid : p.Valid) (running : m.halted = false) :
    m.CallChain p := by
  have wf := h.wellFormed valid
  have top := wf.top_of_running running
  constructor
  · exact wf.stacked.entry top.ne_nil
  · intro i c hc none
    rcases wf.stacked.call? hc with ⟨-, hi⟩ | ⟨k, d, -, called⟩
    · exact hi
    · obtain ⟨pc, target, ref, args, hcaller, -⟩ := called.caller
      rw [none] at hcaller; cases hcaller
  · intro i c hc hi
    rcases wf.stacked.call? hc with ⟨-, h0⟩ | called
    · exact absurd h0 hi
    · exact called
  · rw [Stack.callBelow?_depth]
    exact top
  · intro active
    cases hp : m.pending with
    | active error => exact ⟨error, rfl⟩
    | _ => rw [hp] at active; cases active

/-- A program whose finally block calls a function with an argument. -/
def argumentInCleanup : Program :=
  ⟨#[⟨"main", 1, #[.assign 0 (.function 1), .pushTry [] (some ⟨3, 4⟩), .popFrame, .call 1 0 [0]]⟩,
    ⟨"f", 1, #[.assign 2 (.param 0)]⟩]⟩

/-- In the called function the chain has two frames, and the finally block is still running. -/
theorem callChain_argumentInCleanup : ∃ m, argumentInCleanup.Valid ∧ Reachable argumentInCleanup m ∧
    m.halted = false ∧ m.regions ≠ [] ∧ m.function = 1 ∧ m.frame = 1 ∧ m.CallChain argumentInCleanup := by
  have valid : argumentInCleanup.Valid := by decide
  have started : Reachable argumentInCleanup ((ready argumentInCleanup).started []) := .start .ready rfl
  have pushed := (started.advance rfl rfl).advance rfl rfl
  have called := (pushed.advance rfl rfl).advance rfl rfl
  exact ⟨_, valid, called, rfl, List.cons_ne_nil _ _, rfl, rfl, called.callChain valid rfl⟩

end Machine

end SlotVM
