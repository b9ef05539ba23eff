/-
Every name is owned by one frame. It is bound in one frame at most, and try frames bind none, whatever
sequence of pushes, pops, binds and catches has led to a stack. `Built.namesOwned`: so binding a name changes
this one frame at this one name, or the innermost scope if the name is new.
-/
import SlotVM.Proofs.Stack.Binding

namespace SlotVM

/-- The stacks that pushes of new frames, pops, binds that are `allowed` and catches lead to. -/
inductive Stack.Built (allowed : String → Nat → Prop) : Stack → Prop
  | empty : Built allowed .empty
  | push {s} (kind : FrameKind) (h : Built allowed s) : Built allowed (s.push (.ofKind kind))
  | pop {s t f} (h : Built allowed s) (top : s.pop? = some (f, t)) : Built allowed t
  | bind {s t name ref} (h : Built allowed s) (ok : allowed name ref) (bind : s.bind name ref = .ok t) :
      Built allowed t
  /-- A catch pushes a try frame back that was taken off before. -/
  | pushBack {s u t f} (h : Built allowed s) (before : Built allowed u) (top : u.pop? = some (f, t))
      (isTry : f.isTry = true) : Built allowed (s.push ⟨f.scope, .attempt [] none⟩)

/-- The stack `t` is what binding a name to a slot leaves of `s`. -/
structure Bound (s : Stack) (name : String) (ref : Nat) (t : Stack) : Prop where
  depth : t.depth = s.depth
  resolved : t.resolve? name = some ref
  others : ∀ n, n ≠ name → t.resolve? n = s.resolve? n
  /-- One frame is changed, at this name only. The name is new to it only if no frame has bound it and all
  higher frames are try frames. -/
  changed : ∃ i f g, s.get? i = some f ∧ t.get? i = some g ∧ (∀ j, j ≠ i → t.get? j = s.get? j) ∧
    f.isTry = false ∧ g.kind = f.kind ∧ g.scope.get? name = some ref ∧
    (∀ n, n ≠ name → g.scope.get? n = f.scope.get? n) ∧
    (f.scope.contains name = true ∨ ∀ j h, s.get? j = some h →
      h.scope.contains name = false ∧ (i < j → h.isTry = true))

/-- Names are owned by one frame each. -/
structure NamesOwned (s : Stack) : Prop where
  unique : ∀ i j f g name, s.get? i = some f → s.get? j = some g → f.scope.contains name = true →
    g.scope.contains name = true → i = j
  bare : ∀ i f, s.get? i = some f → f.isTry = true → ∀ name, f.scope.contains name = false
  bind : (∃ i f, s.get? i = some f ∧ f.isTry = false) → ∀ name ref, ∃ t, s.bind name ref = .ok t ∧ Bound s name ref t
  /-- Try frames have no part in looking names up and binding them. -/
  resolve_withoutTries : ∀ name, s.resolve? name = s.withoutTries.resolve? name
  bind_withoutTries : ∀ name ref, (s.bind name ref).map Stack.withoutTries = s.withoutTries.bind name ref

/-! ## The invariant -/

/-- No name is bound in two of the frames, and none in a try frame. -/
structure Separate (fs : List Frame) : Prop where
  bare : ∀ f ∈ fs, f.isTry = true → ∀ name, f.scope.contains name = false
  apart : fs.Pairwise fun f g => ∀ name, f.scope.contains name = true → g.scope.contains name = false

theorem Scope.contains_bind_of_ne {name n : String} (h : n ≠ name) (s : Scope) (ref : Nat) :
    (s.bind name ref).contains n = s.contains n := by
  rw [contains, contains, get?_bind, if_neg h]

namespace Separate

variable {f : Frame} {fs gs : List Frame} {name : String} {ref : Nat}

theorem tail (h : Separate (f :: fs)) : Separate fs :=
  ⟨fun g hg => h.bare g (List.mem_cons_of_mem _ hg), (List.pairwise_cons.1 h.apart).2⟩

theorem cons (h : Separate fs) (free : ∀ name, f.scope.contains name = false) : Separate (f :: fs) := by
  constructor
  · exact List.forall_mem_cons.2 ⟨fun _ => free, h.bare⟩
  · refine List.pairwise_cons.2 ⟨fun g _ name bound => ?_, h.apart⟩
    rw [free name] at bound
    cases bound

/-- No other frame than the one that is changed has the name. -/
theorem splits (h : Separate fs) (split : Splits name ref fs gs) : ∃ above f below,
    fs = above ++ f :: below ∧ gs = above ++ f.bind name ref :: below ∧ f.isTry = false ∧
      (∀ g ∈ above ++ below, g.scope.contains name = false) ∧
      (f.scope.contains name = true ∨ f.scope.contains name = false ∧ ∀ g ∈ above, g.isTry = true) := by
  cases split with
  | owner above f below scope bound free =>
    obtain ⟨-, hbelow, habove⟩ := List.pairwise_append.1 h.apart
    refine ⟨above, f, below, rfl, rfl, scope, fun g hg => ?_, .inl bound⟩
    rcases List.mem_append.1 hg with hg | hg
    · cases hc : g.scope.contains name with
      | false => rfl
      | true => exact bound.symm.trans (habove g hg f (List.mem_cons_self ..) name hc)
    · exact (List.pairwise_cons.1 hbelow).1 g hg name bound
  | innermost above f below scope tries free =>
    refine ⟨above, f, below, rfl, rfl, scope, fun g hg => ?_, .inr ⟨free f (by simp) scope, tries⟩⟩
    have mem : g ∈ above ++ f :: below := by
      rcases List.mem_append.1 hg with hg | hg <;> simp [hg]
    cases hg : g.isTry with
    | true => exact h.bare g mem hg name
    | false => exact free g mem hg

theorem bind (h : Separate fs) (split : Splits name ref fs gs) : Separate gs := by
  obtain ⟨above, f, below, rfl, rfl, scope, others, -⟩ := h.splits split
  obtain ⟨habove, hbelow, hbetween⟩ := List.pairwise_append.1 h.apart
  obtain ⟨hf, hbelow⟩ := List.pairwise_cons.1 hbelow
  constructor
  · intro g hg isTry
    rcases List.mem_append.1 hg with hg | hg
    · exact h.bare g (List.mem_append_left _ hg) isTry
    · rcases List.mem_cons.1 hg with rfl | hg
      · rw [show (f.bind name ref).isTry = f.isTry from rfl, scope] at isTry
        cases isTry
      · exact h.bare g (by simp [hg]) isTry
  · -- the changed frame is compared with those below it and then with those above it
    refine List.pairwise_append.2 ⟨habove, List.pairwise_cons.2 ⟨fun g hg n bound => ?_, hbelow⟩, ?_⟩
    · by_cases hn : n = name
      · exact hn ▸ others g (List.mem_append_right _ hg)
      · exact hf g hg n ((Scope.contains_bind_of_ne hn f.scope ref).symm.trans bound)
    · intro g hg g' hg' n bound
      rcases List.mem_cons.1 hg' with rfl | hg'
      · by_cases hn : n = name
        · rw [hn, others g (List.mem_append_left _ hg)] at bound
          cases bound
        · exact (Scope.contains_bind_of_ne hn f.scope ref).trans (hbetween g hg f (List.mem_cons_self ..) n bound)
      · exact hbetween g hg g' (List.mem_cons_of_mem _ hg') n bound

end Separate

namespace Stack

variable {allowed : String → Nat → Prop} {s t : Stack} {f : Frame} {above below : List Frame} {name : String} {ref : Nat}

theorem frames_of_pop? (h : s.pop? = some (f, t)) : s.frames = f :: t.frames := by
  rw [eq_push_of_pop? h, frames_push]

theorem Built.separate (h : Built allowed s) : Separate s.frames := by
  induction h with
  | empty => exact ⟨nofun, List.Pairwise.nil⟩
  | push kind h ih => exact ih.cons fun _ => rfl
  | pop h top ih => exact (frames_of_pop? top ▸ ih).tail
  | bind h ok bind ih => exact ih.bind (bind_splits bind)
  | @pushBack s u t f h before top isTry ih ihBefore =>
    -- the scope is that of a try frame, so it is empty
    have mem : f ∈ u.frames := by rw [frames_of_pop? top]; exact List.mem_cons_self ..
    exact ih.cons (ihBefore.bare f mem isTry)

/-- Names are bound to slots that they may be bound to. -/
theorem Built.bindings_allowed (h : Built allowed s) :
    ∀ f ∈ s.frames, ∀ n r, f.scope.get? n = some r → allowed n r := by
  induction h with
  | empty => exact nofun
  | push kind h ih => exact List.forall_mem_cons.2 ⟨nofun, ih⟩
  | pop h top ih => exact fun f hf => ih f (frames_of_pop? top ▸ List.mem_cons_of_mem _ hf)
  | bind h ok bind ih =>
    intro g hg n r hr
    rcases (bind_splits bind).mem hg with hg | ⟨f, hf, rfl⟩
    · exact ih g hg n r hr
    · rw [Frame.bind, Scope.get?_bind] at hr
      split at hr
      · rename_i hn
        cases hr
        exact hn ▸ ok
      · exact ih f hf n r hr
  | @pushBack s u t f h before top isTry ih ihBefore =>
    exact List.forall_mem_cons.2 ⟨ihBefore f (frames_of_pop? top ▸ List.mem_cons_self ..), ih⟩

/-! ## Frames by height -/

theorem mem_of_get? {i : Nat} (h : s.get? i = some f) : f ∈ s.frames := by
  rw [get?_eq_reverse] at h
  exact List.mem_reverse.1 (List.mem_of_getElem? h)

theorem get?_split (h : s.frames = above ++ f :: below) (i : Nat) : s.get? i =
    if i < below.length then below.reverse[i]? else if i = below.length then some f
      else above.reverse[i - (below.length + 1)]? := by
  -- heights count from the bottom, the list of frames begins at the top
  rw [get?_eq_reverse, h, List.reverse_append, List.reverse_cons, List.append_assoc, List.getElem?_append,
    List.length_reverse]
  split
  · rfl
  · split
    · rename_i hi
      subst hi
      simp
    · rw [List.getElem?_append_right (by simp; omega), List.length_singleton, Nat.sub_sub]

end Stack

namespace Separate

variable {s t : Stack} {f : Frame} {name : String} {ref : Nat}

/-- A bind changes the frame above `below` only. -/
theorem bound (h : Separate s.frames) (bind : s.bind name ref = .ok t) : Bound s name ref t := by
  have split := Stack.bind_splits bind
  have resolved (n : String) : t.resolve? n = if n = name then some ref else s.resolve? n := split.resolveIn n
  obtain ⟨above, f, below, hs, ht, scope, others, place⟩ := h.splits split
  have changed (n : String) : (f.bind name ref).scope.get? n = if n = name then some ref else f.scope.get? n :=
    f.scope.get?_bind name ref n
  refine ⟨?_, by rw [resolved, if_pos rfl], fun n hn => by rw [resolved, if_neg hn], below.length, f,
    f.bind name ref, ?_, ?_, ?_, scope, rfl, by rw [changed, if_pos rfl], fun n hn => by rw [changed, if_neg hn], ?_⟩
  · rw [t.depth_eq, s.depth_eq, hs, ht, List.length_append, List.length_append]; rfl
  · rw [Stack.get?_split hs, if_neg (Nat.lt_irrefl _), if_pos rfl]
  · rw [Stack.get?_split ht, if_neg (Nat.lt_irrefl _), if_pos rfl]
  · intro j hj
    rw [Stack.get?_split hs, Stack.get?_split ht, if_neg hj]
    split <;> rfl
  · refine place.imp_right ?_
    rintro ⟨unbound, tries⟩ j g hg
    rw [Stack.get?_split hs] at hg
    split at hg
    · rename_i hj
      exact ⟨others g (List.mem_append_right _ (List.mem_reverse.1 (List.mem_of_getElem? hg))), fun _ => by omega⟩
    · split at hg
      · cases hg
        exact ⟨unbound, fun _ => by omega⟩
      · have mem := List.mem_reverse.1 (List.mem_of_getElem? hg)
        exact ⟨others g (List.mem_append_left _ mem), fun _ => tries g mem⟩

theorem unique (h : Separate s.frames) {i j : Nat} {g : Frame} (hi : s.get? i = some f)
    (hj : s.get? j = some g) (hf : f.scope.contains name = true) (hg : g.scope.contains name = true) : i = j := by
  have apart := List.pairwise_iff_getElem.1 (List.pairwise_reverse.2 h.apart)
  rw [Stack.get?_eq_reverse] at hi hj
  obtain ⟨hi', rfl⟩ := List.getElem?_eq_some_iff.1 hi
  obtain ⟨hj', rfl⟩ := List.getElem?_eq_some_iff.1 hj
  rcases Nat.lt_trichotomy i j with hlt | heq | hgt
  · rw [apart i j hi' hj' hlt name hg] at hf; cases hf
  · exact heq
  · rw [apart j i hj' hi' hgt name hf] at hg; cases hg

end Separate

/-- On a stack that pushes, pops, binds and catches lead to, names are owned by one frame each. -/
theorem Stack.Built.namesOwned {allowed : String → Nat → Prop} {s : Stack} (h : Built allowed s) : NamesOwned s := by
  have separate := h.separate
  constructor
  · intro i j f g name hi hj hf hg
    exact separate.unique hi hj hf hg
  · intro i f hf
    exact separate.bare f (mem_of_get? hf)
  · rintro ⟨i, f, hf, scope⟩ name ref
    obtain ⟨t, bind⟩ := bind_ok (mem_of_get? hf) scope name ref
    exact ⟨t, bind, separate.bound bind⟩
  · intro name
    exact (s.resolve?_withoutTries name).symm
  · intro name ref
    exact (s.bind_withoutTries name ref).symm

end SlotVM
