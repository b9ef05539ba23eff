/-
What binding a name leaves alone. A name that is bound already gets another slot where it is bound, and a
new one is bound in the innermost scope. So no frame changes its kind, and none below a function frame
changes the set of names that it binds.
-/
import SlotVM.Proofs.Stack.Kinds

namespace SlotVM

namespace Scope

theorem lookup_filter_ne {name n : String} (h : n ≠ name) : ∀ l : List (String × Nat),
    (l.filter (·.1 ≠ name)).lookup n = l.lookup n
  | [] => rfl
  | (a, ref) :: l => by
    by_cases ha : a = name
    · subst ha
      rw [List.filter_cons_of_neg (by simp), List.lookup_cons, beq_false_of_ne h, lookup_filter_ne h l]
    · rw [List.filter_cons_of_pos (by simpa using ha), List.lookup_cons, List.lookup_cons, lookup_filter_ne h l]

theorem get?_bind (s : Scope) (name : String) (ref : Nat) (n : String) :
    (s.bind name ref).get? n = if n = name then some ref else s.get? n := by
  show ((name, ref) :: s.bindings.filter (·.1 ≠ name)).lookup n = _
  split
  · rename_i h
    subst h
    simp
  · rename_i h
    rw [List.lookup_cons, beq_false_of_ne h]
    exact lookup_filter_ne h _

/-- Another binding of a bound name does not change the set of names. -/
theorem contains_bind {s : Scope} {name : String} (h : s.contains name = true) (ref : Nat) :
    (s.bind name ref).contains = s.contains := by
  funext n
  unfold contains at h ⊢
  rw [get?_bind]
  split
  · rename_i hn
    rw [hn, h]; rfl
  · rfl

end Scope

/-- The kind of a frame, and which names it binds. -/
def Frame.outline (f : Frame) : FrameKind × (String → Bool) := (f.kind, f.scope.contains)

namespace Stack

theorem rebind?_outline {name : String} {ref : Nat} : ∀ {fs gs : List Frame},
    rebind? name ref fs = some gs → gs.map Frame.outline = fs.map Frame.outline
  | f :: fs, gs, h => by
    unfold rebind? at h
    split at h
    · rename_i bound
      rw [Bool.and_eq_true] at bound
      cases h
      rw [List.map_cons, List.map_cons, Frame.outline, Frame.outline, Scope.contains_bind bound.2]
    · obtain ⟨gs', h', rfl⟩ := Option.map_eq_some_iff.1 h
      rw [List.map_cons, List.map_cons, rebind?_outline h']

/-- The frames below one that is not a try frame are not the innermost scope. -/
theorem bindInnermost?_suffix {name : String} {ref : Nat} {c : Frame} {below : List Frame} (hc : c.isTry = false) :
    ∀ {fs gs : List Frame}, bindInnermost? name ref fs = some gs → c :: below <:+ fs →
      ∃ c', c' :: below <:+ gs ∧ c'.kind = c.kind
  | f :: fs, gs, h, suffix => by
    unfold bindInnermost? at h
    rcases List.suffix_cons_iff.1 suffix with heq | suffix
    · cases heq
      rw [hc] at h
      cases h
      exact ⟨_, List.suffix_rfl, rfl⟩
    · split at h
      · obtain ⟨gs', h', rfl⟩ := Option.map_eq_some_iff.1 h
        obtain ⟨c', hc', hk⟩ := bindInnermost?_suffix hc h' suffix
        exact ⟨c', hc'.trans (List.suffix_cons _ _), hk⟩
      · cases h
        exact ⟨c, suffix.trans (List.suffix_cons _ _), rfl⟩

/-- Binding a name keeps a function frame, and the outlines of the frames below it. -/
theorem bind_outline {s t : Stack} {name : String} {ref : Nat} (h : s.bind name ref = .ok t) {c : Frame}
    {below : List Frame} (hc : c.isTry = false) (suffix : c :: below <:+ s.frames) :
    ∃ c' below', c' :: below' <:+ t.frames ∧ c'.kind = c.kind ∧
      below'.map Frame.outline = below.map Frame.outline := by
  unfold bind at h
  split at h
  · rename_i gs hgs
    cases h
    rcases Option.or_eq_some_iff.1 hgs with h | ⟨-, h⟩
    · have hmap : (c :: below).map Frame.outline <:+ gs.map Frame.outline :=
        rebind?_outline h ▸ suffix.map Frame.outline
      obtain ⟨l, hl, heq⟩ := List.suffix_map_iff.1 hmap
      match l, heq with
      | c' :: below', heq =>
        rw [List.map_cons, List.map_cons, List.cons.injEq] at heq
        exact ⟨c', below', hl, (congrArg Prod.fst heq.1).symm, heq.2.symm⟩
    · obtain ⟨c', hc', hk⟩ := bindInnermost?_suffix hc h suffix
      exact ⟨c', below, hc', hk, rfl⟩
  · cases h

/-- Frames with the same outlines as lower frames of another stack, height by height. -/
theorem map_outline_get? {s t : Stack} {l : List Frame} (h : l <:+ t.frames)
    (hl : l.map Frame.outline = s.frames.map Frame.outline) {i : Nat} (hi : i < s.depth) :
    (t.get? i).map Frame.outline = (s.get? i).map Frame.outline := by
  have hlen : l.length = s.depth := by
    have := congrArg List.length hl
    rwa [List.length_map, List.length_map, ← s.depth_eq] at this
  rw [get?_of_suffix h (by omega), get?_eq_reverse, ← List.getElem?_map, ← List.getElem?_map, List.map_reverse,
    List.map_reverse, hl]

end Stack

end SlotVM
