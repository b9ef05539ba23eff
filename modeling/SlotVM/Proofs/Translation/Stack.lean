/-
Alike stacks. They have the same height and alike frames at every height; names are bound and looked up in
the same frames of both.
-/
import SlotVM.Proofs.Translation.Relation

namespace SlotVM

variable {T : Translation}

theorem isSome_eq_of_rel {α β : Type} {R : α → β → Prop} {a : Option α} {b : Option β} (h : Option.Rel R a b) :
    a.isSome = b.isSome := by
  cases h <;> rfl

/-! ## Scopes -/

namespace Scope.Alike

variable {s s' : Scope}

theorem contains_eq (h : s.Alike T s') (name : String) : s.contains name = s'.contains name :=
  isSome_eq_of_rel (lookup_named h)

theorem bind (h : s.Alike T s') (name : String) {a b : Nat} (hab : T.ref a b) :
    (s.bind name a).Alike T (s'.bind name b) := by
  refine .cons ⟨rfl, hab⟩ (List.rel_filter ?_ h)
  rintro x y ⟨hxy, -⟩
  dsimp only
  rw [hxy]

end Scope.Alike

theorem FrameKind.Alike.isTry_eq {function : Nat} {f f' : Frame} (h : f.kind.Alike T function f'.kind) :
    f.isTry = f'.isTry := by
  unfold Frame.isTry
  generalize f.kind = k at h
  generalize f'.kind = k' at h
  cases h <;> rfl

theorem FrameKind.Alike.call? {function : Nat} {k k' : FrameKind} (h : k.Alike T function k') :
    Option.Rel (CallFrame.Alike T) k.call? k'.call? := by
  cases h with
  | call h => exact .some h
  | _ => exact .none

/-! ## Stacks -/

namespace Frames.Alike

variable {fs fs' : List Frame}

theorem length_eq (h : Frames.Alike T fs fs') : fs'.length = fs.length := by
  induction h with
  | nil => rfl
  | cons scope kind h ih => rw [List.length_cons, List.length_cons, ih]

/-- Alike frames are at the same height. -/
theorem get? (h : Frames.Alike T fs fs') (i : Nat) :
    Option.Rel (fun f f' => Option.Rel (CallFrame.Alike T) f.kind.call? f'.kind.call?) fs[i]? fs'[i]? := by
  induction h generalizing i with
  | nil => exact .none
  | cons scope kind h ih =>
    cases i with
    | zero => exact .some kind.call?
    | succ i => exact ih i

theorem resolve? (h : Frames.Alike T fs fs') (name : String) :
    Option.Rel T.ref ((fs.filter (!·.isTry)).findSome? (·.scope.get? name))
      ((fs'.filter (!·.isTry)).findSome? (·.scope.get? name)) := by
  induction h with
  | nil => exact .none
  | @cons f f' below below' scope kind h ih =>
    rw [List.filter_cons, List.filter_cons, ← kind.isTry_eq]
    split
    · have found : Option.Rel T.ref (f.scope.get? name) (f'.scope.get? name) := lookup_named scope
      rw [List.findSome?_cons, List.findSome?_cons]
      generalize f.scope.get? name = a at found ⊢
      generalize f'.scope.get? name = b at found ⊢
      cases found with
      | some found => exact .some found
      | none => exact ih
    · exact ih

theorem rebind? (h : Frames.Alike T fs fs') (name : String) {a b : Nat} (hab : T.ref a b) :
    Option.Rel (Frames.Alike T) (Stack.rebind? name a fs) (Stack.rebind? name b fs') := by
  induction h with
  | nil => exact .none
  | @cons f f' below below' scope kind h ih =>
    unfold Stack.rebind?
    rw [← kind.isTry_eq, ← scope.contains_eq]
    split
    · exact .some (.cons (scope.bind name hab) kind h)
    · generalize hgs : Stack.rebind? name a below = gs at ih ⊢
      generalize Stack.rebind? name b below' = gs' at ih ⊢
      cases ih with
      | some ih => exact .some (.cons scope (by rw [Stack.rebind?_kinds hgs]; exact kind) ih)
      | none => exact .none

theorem bindInnermost? (h : Frames.Alike T fs fs') (name : String) {a b : Nat} (hab : T.ref a b) :
    Option.Rel (Frames.Alike T) (Stack.bindInnermost? name a fs) (Stack.bindInnermost? name b fs') := by
  induction h with
  | nil => exact .none
  | @cons f f' below below' scope kind h ih =>
    unfold Stack.bindInnermost?
    rw [← kind.isTry_eq]
    split
    · generalize hgs : Stack.bindInnermost? name a below = gs at ih ⊢
      generalize Stack.bindInnermost? name b below' = gs' at ih ⊢
      cases ih with
      | some ih => exact .some (.cons scope (by rw [Stack.bindInnermost?_kinds hgs]; exact kind) ih)
      | none => exact .none
    · exact .some (.cons (scope.bind name hab) kind h)

end Frames.Alike

namespace Stack

variable {s s' : Stack}

theorem depth_eq_of_alike (h : Frames.Alike T s.frames s'.frames) : s'.depth = s.depth := by
  rw [s.depth_eq, s'.depth_eq, h.length_eq]

/-- The frames of two alike stacks that are taken off, and what is below. -/
theorem pop?_alike (h : Frames.Alike T s.frames s'.frames) : (s.pop? = none ∧ s'.pop? = none) ∨
    ∃ f f' rest rest', s.pop? = some (f, rest) ∧ s'.pop? = some (f', rest') ∧ f.scope.Alike T f'.scope ∧
      f.kind.Alike T ((owner? rest.kinds).getD Program.entryId) f'.kind ∧
      Frames.Alike T rest.frames rest'.frames := by
  cases hf : s.frames with
  | nil =>
    rw [hf] at h
    cases hf' : s'.frames with
    | nil => exact .inl ⟨pop?_eq_none_iff.2 hf, pop?_eq_none_iff.2 hf'⟩
    | cons => rw [hf'] at h; cases h
  | cons f below =>
    rw [hf] at h
    cases hf' : s'.frames with
    | nil => rw [hf'] at h; cases h
    | cons f' below' =>
      rw [hf'] at h
      cases h with
      | cons scope kind h =>
        have top : s = (ofFrames below).push f := Stack.ext hf
        have top' : s' = (ofFrames below').push f' := Stack.ext hf'
        exact .inr ⟨f, f', ofFrames below, ofFrames below', by rw [top, pop?_push], by rw [top', pop?_push], scope,
          kind, h⟩

theorem callFrame_agree (h : Frames.Alike T s.frames s'.frames) (index : Nat) :
    Agree (CallFrame.Alike T) (ofCause (s.callFrame index)) (ofCause (s'.callFrame index)) := by
  have found : Option.Rel (fun f f' : Frame => Option.Rel (CallFrame.Alike T) f.kind.call? f'.kind.call?)
      (s.get? index) (s'.get? index) := by
    unfold get?
    rw [depth_eq_of_alike h]
    split
    · exact h.get? _
    · exact .none
  unfold callFrame
  generalize s.get? index = x at found ⊢
  generalize s'.get? index = y at found ⊢
  cases found with
  | none => exact .fault _ _
  | @some f f' hf =>
    rw [Option.map_some, Option.map_some]
    cases hk : f.kind <;> cases hk' : f'.kind <;> rw [hk, hk'] at hf <;> cases hf <;>
      first | exact .ok ‹_› | exact .fault _ _

theorem resolve?_alike (h : Frames.Alike T s.frames s'.frames) (name : String) :
    Option.Rel T.ref (s.resolve? name) (s'.resolve? name) := h.resolve? name

/-- Binding a name in alike stacks. -/
theorem bind_agree (h : Frames.Alike T s.frames s'.frames) (name : String) {a b : Nat} (hab : T.ref a b) :
    Agree (fun t t' => Frames.Alike T t.frames t'.frames) (ofCause (s.bind name a)) (ofCause (s'.bind name b)) := by
  have bound := h.rebind? name hab
  have innermost := h.bindInnermost? name hab
  unfold Stack.bind
  generalize rebind? name a s.frames = x at bound ⊢
  generalize rebind? name b s'.frames = y at bound ⊢
  cases bound with
  | some h => exact .ok h
  | none =>
    rw [Option.none_or, Option.none_or]
    generalize bindInnermost? name a s.frames = x at innermost ⊢
    generalize bindInnermost? name b s'.frames = y at innermost ⊢
    cases innermost with
    | some h => exact .ok h
    | none => exact .fault _ _

end Stack

end SlotVM
