/-
Where a name is bound. `bind_splits`: binding a name changes one frame, the topmost that has the name, or the
innermost scope if none has it. So the name resolves to its new slot, every other name to the slot that it had,
and try frames have no part in it: without them the result is the same.
-/
import SlotVM.Proofs.Stack.Outline

namespace SlotVM

/-- The frame with a name bound in its scope. -/
def Frame.bind (f : Frame) (name : String) (ref : Nat) : Frame := { f with scope := f.scope.bind name ref }

/-- The frames that are scopes of names: all but the try frames. -/
def scopes (fs : List Frame) : List Frame := fs.filter (!·.isTry)

/-- The stack without its try frames. -/
def Stack.withoutTries (s : Stack) : Stack := .ofFrames (scopes s.frames)

/-- The frames `gs` are the frames `fs` with a name bound in one of them: in the topmost that binds it, or, if
none does, in the topmost that is not a try frame. -/
inductive Splits (name : String) (ref : Nat) : List Frame → List Frame → Prop
  | owner (above : List Frame) (f : Frame) (below : List Frame) (scope : f.isTry = false)
      (bound : f.scope.contains name = true)
      (free : ∀ g ∈ above, g.isTry = false → g.scope.contains name = false) :
      Splits name ref (above ++ f :: below) (above ++ f.bind name ref :: below)
  | innermost (above : List Frame) (f : Frame) (below : List Frame) (scope : f.isTry = false)
      (tries : ∀ g ∈ above, g.isTry = true)
      (free : ∀ g ∈ above ++ f :: below, g.isTry = false → g.scope.contains name = false) :
      Splits name ref (above ++ f :: below) (above ++ f.bind name ref :: below)

variable {name : String} {ref : Nat} {fs gs : List Frame}

theorem scopes_cons {f : Frame} (h : f.isTry = false) (fs : List Frame) : scopes (f :: fs) = f :: scopes fs :=
  List.filter_cons_of_pos (by simp [h])

theorem scopes_cons_try {f : Frame} (h : f.isTry = true) (fs : List Frame) : scopes (f :: fs) = scopes fs :=
  List.filter_cons_of_neg (by simp [h])

/-! ## The frame that is changed -/

namespace Stack

theorem rebind?_some : ∀ {fs gs : List Frame}, rebind? name ref fs = some gs → ∃ above f below,
    fs = above ++ f :: below ∧ gs = above ++ f.bind name ref :: below ∧ f.isTry = false ∧
      f.scope.contains name = true ∧ ∀ g ∈ above, g.isTry = false → g.scope.contains name = false
  | f :: fs, gs, h => by
    unfold rebind? at h
    split at h
    · rename_i bound
      rw [Bool.and_eq_true, Bool.not_eq_true'] at bound
      cases h
      exact ⟨[], f, fs, rfl, rfl, bound.1, bound.2, by simp⟩
    · rename_i unbound
      obtain ⟨gs', h', rfl⟩ := Option.map_eq_some_iff.1 h
      obtain ⟨above, g, below, rfl, rfl, scope, bound, free⟩ := rebind?_some h'
      refine ⟨f :: above, g, below, rfl, rfl, scope, bound, List.forall_mem_cons.2 ⟨?_, free⟩⟩
      intro hf
      simpa [hf] using unbound

theorem rebind?_none : ∀ {fs : List Frame}, rebind? name ref fs = none →
    ∀ g ∈ fs, g.isTry = false → g.scope.contains name = false
  | [], _, g, hg, _ => by cases hg
  | f :: fs, h, g, hg, scope => by
    unfold rebind? at h
    split at h
    · cases h
    · rename_i unbound
      rcases List.mem_cons.1 hg with rfl | hg
      · simpa [scope] using unbound
      · exact rebind?_none (Option.map_eq_none_iff.1 h) g hg scope

theorem bindInnermost?_some : ∀ {fs gs : List Frame}, bindInnermost? name ref fs = some gs → ∃ above f below,
    fs = above ++ f :: below ∧ gs = above ++ f.bind name ref :: below ∧ f.isTry = false ∧
      ∀ g ∈ above, g.isTry = true
  | f :: fs, gs, h => by
    unfold bindInnermost? at h
    split at h
    · rename_i hf
      obtain ⟨gs', h', rfl⟩ := Option.map_eq_some_iff.1 h
      obtain ⟨above, g, below, rfl, rfl, scope, tries⟩ := bindInnermost?_some h'
      exact ⟨f :: above, g, below, rfl, rfl, scope, List.forall_mem_cons.2 ⟨hf, tries⟩⟩
    · rename_i hf
      cases h
      exact ⟨[], f, fs, rfl, rfl, by simpa using hf, by simp⟩

theorem bindInnermost?_none : ∀ {fs : List Frame}, bindInnermost? name ref fs = none → ∀ g ∈ fs, g.isTry = true
  | [], _, g, hg => by cases hg
  | f :: fs, h, g, hg => by
    unfold bindInnermost? at h
    split at h
    · rename_i hf
      rcases List.mem_cons.1 hg with rfl | hg
      · exact hf
      · exact bindInnermost?_none (Option.map_eq_none_iff.1 h) g hg
    · cases h

/-- Binding a name changes one frame. -/
theorem bind_splits {s t : Stack} (h : s.bind name ref = .ok t) : Splits name ref s.frames t.frames := by
  unfold bind at h
  split at h
  · rename_i gs hgs
    cases h
    show Splits name ref s.frames gs
    rcases Option.or_eq_some_iff.1 hgs with h | ⟨none, h⟩
    · obtain ⟨above, f, below, hs, rfl, scope, bound, free⟩ := rebind?_some h
      rw [hs]
      exact .owner above f below scope bound free
    · -- no scope has the name, so it becomes a new one of the topmost
      have free := rebind?_none none
      obtain ⟨above, f, below, hs, rfl, scope, tries⟩ := bindInnermost?_some h
      rw [hs] at free ⊢
      exact .innermost above f below scope tries free
  · cases h

/-- A name can be bound as soon as there is a frame that is not a try frame. -/
theorem bind_ok {s : Stack} {f : Frame} (mem : f ∈ s.frames) (scope : f.isTry = false) (name : String)
    (ref : Nat) : ∃ t, s.bind name ref = .ok t := by
  unfold bind
  split
  · exact ⟨_, rfl⟩
  · rename_i none
    have := bindInnermost?_none (Option.or_eq_none_iff.1 none).2 f mem
    rw [scope] at this
    cases this

end Stack

theorem Splits.mem (h : Splits name ref fs gs) {g : Frame} (hg : g ∈ gs) : g ∈ fs ∨ ∃ f ∈ fs, g = f.bind name ref := by
  cases h with
  | owner above f below | innermost above f below =>
    rcases List.mem_append.1 hg with hg | hg
    · exact .inl (List.mem_append_left _ hg)
    · rcases List.mem_cons.1 hg with rfl | hg
      · exact .inr ⟨f, by simp, rfl⟩
      · exact .inl (by simp [hg])

/-! ## Look-up afterwards -/

/-- The slot that the topmost binding of a name names. -/
def resolveIn (name : String) (fs : List Frame) : Option Nat := (scopes fs).findSome? (·.scope.get? name)

theorem resolveIn_append (name : String) (above below : List Frame) :
    resolveIn name (above ++ below) = (resolveIn name above).or (resolveIn name below) := by
  rw [resolveIn, scopes, List.filter_append, List.findSome?_append]; rfl

theorem resolveIn_cons {f : Frame} (scope : f.isTry = false) (name : String) (below : List Frame) :
    resolveIn name (f :: below) = (f.scope.get? name).or (resolveIn name below) := by
  rw [resolveIn, scopes_cons scope, List.findSome?_cons]
  cases f.scope.get? name <;> rfl

theorem resolveIn_eq_none (free : ∀ g ∈ fs, g.isTry = false → g.scope.contains name = false) :
    resolveIn name fs = none := by
  refine List.findSome?_eq_none_iff.2 fun g hg => ?_
  obtain ⟨mem, scope⟩ := List.mem_filter.1 hg
  simpa [Scope.contains] using free g mem (by simpa using scope)

/-- The name resolves to the slot that it was bound to, and other names to what they did. -/
theorem Splits.resolveIn (h : Splits name ref fs gs) (n : String) :
    resolveIn n gs = if n = name then some ref else SlotVM.resolveIn n fs := by
  -- whichever frame is changed, no scope above it has the name
  have changed (above : List Frame) {f : Frame} (below : List Frame) (scope : f.isTry = false)
      (free : ∀ g ∈ above, g.isTry = false → g.scope.contains name = false) :
      SlotVM.resolveIn n (above ++ f.bind name ref :: below) =
        if n = name then some ref else SlotVM.resolveIn n (above ++ f :: below) := by
    rw [resolveIn_append, resolveIn_append, resolveIn_cons (f := f.bind name ref) scope, resolveIn_cons scope,
      Frame.bind, Scope.get?_bind]
    split
    · rename_i hn
      subst hn
      rw [resolveIn_eq_none free]; rfl
    · rfl
  cases h with
  | owner above f below scope bound free => exact changed above below scope free
  | innermost above f below scope tries free =>
    exact changed above below scope fun g hg => free g (List.mem_append_left _ hg)

/-! ## Without the try frames -/

theorem map_scopes_cons {f : Frame} (h : f.isTry = false) (found : Option (List Frame)) :
    (found.map (f :: ·)).map scopes = (found.map scopes).map (f :: ·) := by
  cases found with
  | none => rfl
  | some fs => exact congrArg some (scopes_cons h fs)

theorem map_scopes_cons_try {f : Frame} (h : f.isTry = true) (found : Option (List Frame)) :
    (found.map (f :: ·)).map scopes = found.map scopes := by
  cases found with
  | none => rfl
  | some fs => exact congrArg some (scopes_cons_try h fs)

namespace Stack

theorem resolve?_withoutTries (s : Stack) (name : String) : s.withoutTries.resolve? name = s.resolve? name := by
  show (scopes (scopes s.frames)).findSome? _ = (scopes s.frames).findSome? _
  rw [scopes, scopes, List.filter_filter]
  simp only [Bool.and_self]

theorem rebind?_scopes (name : String) (ref : Nat) : ∀ fs : List Frame,
    rebind? name ref (scopes fs) = (rebind? name ref fs).map scopes
  | [] => rfl
  | f :: fs => by
    have ih := rebind?_scopes name ref fs
    cases hf : f.isTry with
    | true => rw [scopes_cons_try hf, ih, rebind?, hf, if_neg (by simp), map_scopes_cons_try hf]
    | false =>
      rw [scopes_cons hf, rebind?, rebind?, hf]
      cases f.scope.contains name with
      | true => exact congrArg some (scopes_cons (f := f.bind name ref) hf fs).symm
      | false => rw [if_neg (by simp), if_neg (by simp), ih, map_scopes_cons hf]

theorem bindInnermost?_scopes (name : String) (ref : Nat) : ∀ fs : List Frame,
    bindInnermost? name ref (scopes fs) = (bindInnermost? name ref fs).map scopes
  | [] => rfl
  | f :: fs => by
    cases hf : f.isTry with
    | true =>
      rw [scopes_cons_try hf, bindInnermost?_scopes name ref fs, bindInnermost?, if_pos hf, map_scopes_cons_try hf]
    | false =>
      rw [scopes_cons hf, bindInnermost?, bindInnermost?, hf, if_neg Bool.false_ne_true]
      exact congrArg some (scopes_cons (f := f.bind name ref) hf fs).symm

theorem bind_withoutTries (s : Stack) (name : String) (ref : Nat) :
    s.withoutTries.bind name ref = (s.bind name ref).map withoutTries := by
  have found : (rebind? name ref s.withoutTries.frames).or (bindInnermost? name ref s.withoutTries.frames) =
      ((rebind? name ref s.frames).or (bindInnermost? name ref s.frames)).map scopes := by
    rw [Option.map_or, ← rebind?_scopes, ← bindInnermost?_scopes]; rfl
  unfold bind
  rw [found]
  cases (rebind? name ref s.frames).or (bindInnermost? name ref s.frames) <;> rfl

end Stack

end SlotVM
