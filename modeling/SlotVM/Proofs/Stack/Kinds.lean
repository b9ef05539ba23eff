/-
The kinds of the frames on a stack, and the function frames among them. A frame keeps its kind as
long as it is on the stack: binding a name changes scopes only. Frames are given by their height, as
continuations do, or by the list of all kinds with the top one first, as proofs by induction do.
-/
import SlotVM.Stack.Basic

namespace SlotVM

/-- The call of a function frame. -/
def FrameKind.call? : FrameKind → Option CallFrame
  | .call c => some c
  | _ => none

/-- The topmost function frame of a stack with these kinds, the top one first, and its height. -/
def topCall? : List FrameKind → Option (Nat × CallFrame)
  | [] => none
  | k :: below =>
    match k.call? with
    | some c => some (below.length, c)
    | none => topCall? below

/-- The lowest `n` of some frames. -/
def bottom {α : Type} (n : Nat) (l : List α) : List α := l.drop (l.length - n)

/-! ## The lowest frames -/

theorem bottom_cons {α : Type} {n : Nat} {l : List α} (a : α) (h : n ≤ l.length) :
    bottom n (a :: l) = bottom n l := by
  unfold bottom
  rw [List.length_cons, Nat.succ_sub h, List.drop_succ_cons]

theorem bottom_length {α : Type} (l : List α) : bottom l.length l = l := by
  simp [bottom]

theorem bottom_of_suffix {α : Type} {s l : List α} (h : s <:+ l) : bottom s.length l = s := by
  obtain ⟨above, rfl⟩ := h
  simp [bottom]

theorem bottom_suffix {α : Type} (n : Nat) (l : List α) : bottom n l <:+ l := List.drop_suffix _ _

theorem bottom_suffix_bottom {α : Type} {n k : Nat} (h : n ≤ k) (l : List α) : bottom n l <:+ bottom k l :=
  List.drop_suffix_drop_left l (by omega)

theorem length_bottom {α : Type} {n : Nat} {l : List α} (h : n ≤ l.length) : (bottom n l).length = n := by
  simp only [bottom, List.length_drop]; omega

theorem map_bottom {α β : Type} (g : α → β) (n : Nat) (l : List α) : (bottom n l).map g = bottom n (l.map g) := by
  simp [bottom, List.map_drop]

/-! ## The topmost function frame -/

theorem topCall?_cons {k : FrameKind} (h : k.call? = none) (below : List FrameKind) :
    topCall? (k :: below) = topCall? below := by
  simp [topCall?, h]

theorem topCall?_lt : ∀ {ks : List FrameKind} {i : Nat} {c : CallFrame},
    topCall? ks = some (i, c) → i < ks.length
  | k :: below, i, c, h => by
    unfold topCall? at h
    split at h
    · cases h; simp
    · have := topCall?_lt h; simp; omega

/-- The topmost function frame of the lower frames is not above the topmost of all, and is that one if it is
as high. -/
theorem topCall?_of_suffix {l ks : List FrameKind} (h : l <:+ ks) {i : Nat} {c : CallFrame}
    (hl : topCall? l = some (i, c)) : ∃ j d, topCall? ks = some (j, d) ∧ i ≤ j ∧ (i = j → c = d) := by
  obtain ⟨above, rfl⟩ := h
  induction above with
  | nil => exact ⟨i, c, hl, Nat.le_refl i, fun _ => rfl⟩
  | cons k above ih =>
    cases hk : k.call? with
    | none => simpa only [List.cons_append, topCall?_cons hk] using ih
    | some e =>
      have hi := topCall?_lt hl
      refine ⟨(above ++ l).length, e, by simp [topCall?, hk], ?_, ?_⟩ <;> rw [List.length_append] <;> omega

namespace Stack

/-! ## Kinds of a stack -/

/-- The kinds of the frames, the top one first. -/
def kinds (s : Stack) : List FrameKind := s.frames.map Frame.kind

@[simp] theorem kinds_push (s : Stack) (f : Frame) : (s.push f).kinds = f.kind :: s.kinds := rfl

@[simp] theorem length_kinds (s : Stack) : s.kinds.length = s.depth := by
  simp [kinds, s.depth_eq]

theorem topCall?_call (s : Stack) (c : CallFrame) : topCall? (.call c :: s.kinds) = some (s.depth, c) := by
  simp [topCall?, FrameKind.call?]

theorem kinds_eq_nil_iff {s : Stack} : s.kinds = [] ↔ s.isEmpty = true := by
  simp [kinds, isEmpty]

theorem rebind?_kinds {name : String} {ref : Nat} : ∀ {fs gs : List Frame},
    rebind? name ref fs = some gs → gs.map Frame.kind = fs.map Frame.kind
  | f :: fs, gs, h => by
    unfold rebind? at h
    split at h
    · cases h; rfl
    · obtain ⟨gs', h', rfl⟩ := Option.map_eq_some_iff.1 h
      simp [rebind?_kinds h']

theorem bindInnermost?_kinds {name : String} {ref : Nat} : ∀ {fs gs : List Frame},
    bindInnermost? name ref fs = some gs → gs.map Frame.kind = fs.map Frame.kind
  | f :: fs, gs, h => by
    unfold bindInnermost? at h
    split at h
    · obtain ⟨gs', h', rfl⟩ := Option.map_eq_some_iff.1 h
      simp [bindInnermost?_kinds h']
    · cases h; rfl

/-- Binding a name keeps the kinds of all frames. -/
theorem bind_kinds {s t : Stack} {name : String} {ref : Nat} (h : s.bind name ref = .ok t) :
    t.kinds = s.kinds := by
  unfold bind at h
  split at h
  · rename_i gs hgs
    cases h
    rcases Option.or_eq_some_iff.1 hgs with h | ⟨-, h⟩
    · exact rebind?_kinds h
    · exact bindInnermost?_kinds h
  · cases h

/-- Every stack is built by pushing frames. -/
@[elab_as_elim] theorem push_induction {motive : Stack → Prop} (empty : motive .empty)
    (push : ∀ s f, motive s → motive (s.push f)) (s : Stack) : motive s := by
  obtain ⟨frames, depth, hd⟩ := s
  subst hd
  induction frames with
  | nil => exact empty
  | cons f fs ih => exact push _ f ih

/-! ## Frames by height -/

theorem get?_push (s : Stack) (f : Frame) (i : Nat) :
    (s.push f).get? i = if i = s.depth then some f else s.get? i := by
  unfold get?
  rw [depth_push, frames_push]
  split
  · rename_i h
    split
    · rename_i hi; subst hi; simp
    · have hi : i < s.depth := by omega
      rw [if_pos hi, show s.depth + 1 - 1 - i = (s.depth - 1 - i) + 1 by omega, List.getElem?_cons_succ]
  · rw [if_neg (by omega), if_neg (by omega)]

theorem lt_depth_of_get? {s : Stack} {i : Nat} {f : Frame} (h : s.get? i = some f) : i < s.depth := by
  unfold get? at h
  split at h
  · assumption
  · cases h

theorem get?_eq_reverse (s : Stack) (i : Nat) : s.get? i = s.frames.reverse[i]? := by
  unfold get?
  split
  · rename_i h
    rw [s.depth_eq] at h ⊢
    rw [List.getElem?_reverse h]
  · rename_i h
    rw [s.depth_eq] at h
    rw [List.getElem?_eq_none (by simpa using h)]

/-- The lowest frames are where they were. -/
theorem get?_of_suffix {s : Stack} {l : List Frame} (h : l <:+ s.frames) {i : Nat} (hi : i < l.length) :
    s.get? i = l.reverse[i]? := by
  obtain ⟨above, h⟩ := h
  rw [get?_eq_reverse, ← h, List.reverse_append, List.getElem?_append_left (by simpa using hi)]

theorem map_kind_get? (s : Stack) (i : Nat) : (s.get? i).map Frame.kind = s.kinds.reverse[i]? := by
  rw [get?_eq_reverse, kinds, ← List.map_reverse, List.getElem?_map]

/-- Frames whose kinds are the lowest kinds of a higher stack have the same kinds there, height by
height. -/
theorem map_kind_get?_of_suffix {s t : Stack} (h : s.kinds <:+ t.kinds) {i : Nat} (hi : i < s.depth) :
    (t.get? i).map Frame.kind = (s.get? i).map Frame.kind := by
  obtain ⟨above, h⟩ := h
  rw [map_kind_get?, map_kind_get?, ← h, List.reverse_append, List.getElem?_append_left (by simpa using hi)]

theorem get?_of_lt {s : Stack} {i : Nat} (h : i < s.depth) : ∃ f, s.get? i = some f := by
  rw [s.depth_eq] at h
  rw [get?_eq_reverse]
  exact ⟨_, List.getElem?_eq_getElem (by simpa using h)⟩

/-- The call of the function frame at a height. -/
def call? (s : Stack) (i : Nat) : Option CallFrame := (s.get? i).bind (·.kind.call?)

/-- The nearest function frame below a height, and its own height. -/
def callBelow? (s : Stack) : Nat → Option (Nat × CallFrame)
  | 0 => none
  | i + 1 =>
    match s.call? i with
    | some c => some (i, c)
    | none => s.callBelow? i

theorem call?_push (s : Stack) (f : Frame) (i : Nat) :
    (s.push f).call? i = if i = s.depth then f.kind.call? else s.call? i := by
  unfold call?
  rw [get?_push]
  split <;> rfl

theorem callBelow?_push {s : Stack} (f : Frame) : ∀ {i : Nat}, i ≤ s.depth →
    (s.push f).callBelow? i = s.callBelow? i
  | 0, _ => rfl
  | i + 1, h => by
    unfold callBelow?
    rw [call?_push, if_neg (by omega), callBelow?_push f (by omega)]

/-- The nearest function frame below the top of the stack is the topmost one. -/
theorem callBelow?_depth (s : Stack) : s.callBelow? s.depth = topCall? s.kinds := by
  induction s using push_induction with
  | empty => rfl
  | push s f ih =>
    rw [depth_push, kinds_push]
    unfold callBelow? topCall?
    rw [call?_push, if_pos rfl, callBelow?_push f (Nat.le_refl _), ih, length_kinds]

/-- The function frame is the nearest one: there is none between it and the height. -/
theorem callBelow?_eq_some_iff {s : Stack} {k : Nat} {c : CallFrame} : ∀ {i : Nat},
    s.callBelow? i = some (k, c) ↔ k < i ∧ s.call? k = some c ∧ ∀ j, k < j → j < i → s.call? j = none
  | 0 => by simp [callBelow?]
  | i + 1 => by
    unfold callBelow?
    split
    · rename_i d hd
      constructor
      · rintro ⟨⟩
        exact ⟨Nat.lt_succ_self _, hd, fun j h h' => by omega⟩
      · rintro ⟨hk, hc, between⟩
        rcases Nat.lt_succ_iff_lt_or_eq.1 hk with hk | rfl
        · rw [between i hk (Nat.lt_succ_self _)] at hd; cases hd
        · rw [hd] at hc; cases hc; rfl
    · rename_i hd
      rw [callBelow?_eq_some_iff]
      constructor
      · rintro ⟨hk, hc, between⟩
        refine ⟨by omega, hc, fun j h h' => ?_⟩
        rcases Nat.lt_succ_iff_lt_or_eq.1 h' with h' | rfl
        · exact between j h h'
        · exact hd
      · rintro ⟨hk, hc, between⟩
        have hne : k ≠ i := by rintro rfl; rw [hd] at hc; cases hc
        exact ⟨by omega, hc, fun j h h' => between j h (by omega)⟩

/-- The nearest function frame below a height is the topmost one of the frames that are lower. -/
theorem callBelow?_eq_topCall? {s : Stack} {i : Nat} (h : i ≤ s.depth) :
    s.callBelow? i = topCall? (bottom i s.kinds) := by
  induction s using push_induction with
  | empty => cases Nat.le_zero.1 h; rfl
  | push s f ih =>
    rcases Nat.le_succ_iff.1 h with hi | rfl
    · rw [callBelow?_push f hi, kinds_push, bottom_cons _ (by rwa [length_kinds]), ih hi]
    · show (s.push f).callBelow? (s.push f).depth = topCall? (bottom (s.push f).depth (s.push f).kinds)
      rw [callBelow?_depth, ← length_kinds, bottom_length]

end Stack

end SlotVM
