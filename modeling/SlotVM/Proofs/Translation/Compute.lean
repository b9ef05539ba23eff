/-
What alike machines compute. An instruction and its translation read corresponding slots, so they yield alike
values, raise the same failure, or both fault.
-/
import SlotVM.Proofs.Computation
import SlotVM.Proofs.Translation.Stack

namespace SlotVM

open Relator

variable {T : Translation} {p p' : Program}

/-! ## Lists -/

theorem forall₂_map_slot {α β : Type} {R : α → β → Prop} {f : α → β} {l : List α} (h : ∀ a ∈ l, R a (f a)) :
    List.Forall₂ R l (l.map f) :=
  List.forall₂_map_right_iff.2 (List.forall₂_same.2 h)

/-! ## Records -/

theorem insertField_named {ref : Nat → Nat → Prop} (name : String) {a b : Nat} (hab : ref a b) :
    ∀ {l l' : List (String × Nat)}, List.Forall₂ (Named ref) l l' →
      List.Forall₂ (Named ref) (insertField name a l) (insertField name b l') := by
  intro l l' h
  induction h with
  | nil => exact .cons ⟨rfl, hab⟩ .nil
  | @cons x x' l l' hx h ih =>
    obtain ⟨n, x⟩ := x
    obtain ⟨n', x'⟩ := x'
    obtain ⟨hn, hxx⟩ := hx
    dsimp only at hn
    subst hn
    unfold insertField
    split
    · exact .cons ⟨rfl, hab⟩ (.cons ⟨rfl, hxx⟩ h)
    · split
      · exact .cons ⟨rfl, hab⟩ h
      · exact .cons ⟨rfl, hxx⟩ ih

theorem Fields.ofList_named {ref : Nat → Nat → Prop} {l l' : List (String × Nat)}
    (h : List.Forall₂ (Named ref) l l') : List.Forall₂ (Named ref) (ofList l).entries (ofList l').entries := by
  have folded : ∀ {f f' : Fields}, List.Forall₂ (Named ref) f.entries f'.entries →
      List.Forall₂ (Named ref) (l.foldl (fun f p => f.insert p.1 p.2) f).entries
        (l'.foldl (fun f p => f.insert p.1 p.2) f').entries := by
    induction h with
    | nil => exact id
    | @cons x y l l' hxy h ih =>
      intro f f' hf
      obtain ⟨hn, href⟩ := hxy
      refine ih ?_
      dsimp only
      rw [← hn]
      exact insertField_named _ href hf
  exact folded .nil

/-! ## Constants -/

theorem Constants.Alike.get? {c c' : Constants} (h : c.Alike T c') (id : Nat) :
    Option.Rel (Value.Alike T.ref) (c.get? id) (c'.get? id) := by
  obtain ⟨l⟩ := c
  obtain ⟨l'⟩ := c'
  unfold Constants.get?
  replace h : List.Forall₂ (fun a b => a.1 = b.1 ∧ Value.Alike T.ref a.2 b.2) l l' := h
  dsimp only
  induction h with
  | nil => exact .none
  | @cons x y l l' hxy h ih =>
    obtain ⟨j, v⟩ := x
    obtain ⟨k, w⟩ := y
    obtain ⟨hjk, hvw⟩ := hxy
    dsimp only at hjk hvw
    subst hjk
    rw [List.lookup_cons, List.lookup_cons]
    cases id == j with
    | true => exact .some hvw
    | false => exact ih

theorem Constants.Alike.contains_eq {c c' : Constants} (h : c.Alike T c') (id : Nat) : c.contains id = c'.contains id :=
  isSome_eq_of_rel (h.get? id)

theorem Constants.Alike.read {c c' : Constants} (h : c.Alike T c') (id : Nat) :
    Agree (Value.Alike T.ref) (ofCause (c.read id)) (ofCause (c'.read id)) := by
  have found := h.get? id
  unfold Constants.read
  generalize c.get? id = x at found ⊢
  generalize c'.get? id = y at found ⊢
  cases found with
  | some h => exact .ok h
  | none => exact .fault _ _

theorem Constants.Alike.set {c c' : Constants} (h : c.Alike T c') (id : Nat) {v w : Value}
    (hvw : Value.Alike T.ref v w) :
    Agree (Constants.Alike T) (ofCause (c.set id v)) (ofCause (c'.set id w)) := by
  unfold Constants.set Constants.set?
  rw [← h.contains_eq]
  cases c.contains id with
  | true => exact .fault _ _
  | false => exact .ok (.cons ⟨rfl, hvw⟩ h)

theorem Pending.Alike.error? {x y : Pending} (h : x.Alike T y) :
    Option.Rel (Value.Alike T.ref) x.error? y.error? := by
  cases h with
  | none => exact .none
  | settled h | active h => exact .some h

/-! ## Reading -/

namespace Machine

variable {m m' : Machine}

theorem orFault_agree {α β : Type} {R : α → β → Prop} {a : Option α} {b : Option β} (h : Option.Rel R a b)
    (c c' : Cause) : Agree R (orFault c a) (orFault c' b) := by
  cases h with
  | some h => exact .ok h
  | none => exact .fault _ _

namespace Alike

theorem load (h : m.Alike T m') (sound : T.Sound p p') {a b : Nat} (hab : T.ref a b) :
    Agree (Value.Alike T.ref) (m.load a) (m'.load b) :=
  Slots.read_agree (sound.read h.slots a b hab)

theorem param (h : m.Alike T m') (position : Nat) :
    Agree (Value.Alike T.ref) (m.param position) (m'.param position) := by
  unfold Machine.param
  rw [h.frame]
  refine (Stack.callFrame_agree h.stack m.frame).bind fun c c' hc => ?_
  exact orFault_agree (getElem?_of_forall₂ hc.args position) _ _

theorem fieldRef (h : m.Alike T m') (sound : T.Sound p p') {a b : Nat} (hab : T.ref a b) (name : String) :
    Agree T.ref (m.fieldRef a name) (m'.fieldRef b name) := by
  refine (h.load sound hab).bind fun v w hv => ?_
  cases hv with
  | primitive hv => cases v <;> first | exact .fault _ _ | exact hv.elim
  | record hv => exact orFault_agree (lookup_named hv) _ _
  | _ => exact .fault _ _

theorem elementRef (h : m.Alike T m') (sound : T.Sound p p') {a b : Nat} (hab : T.ref a b) (position : Nat) :
    Agree T.ref (m.elementRef a position) (m'.elementRef b position) := by
  refine (h.load sound hab).bind fun v w hv => ?_
  cases hv with
  | primitive hv => cases v <;> first | exact .fault _ _ | exact hv.elim
  | array hv | tuple hv => exact orFault_agree (getElem?_of_forall₂ hv position) _ _
  | _ => exact .fault _ _

theorem indexRef (h : m.Alike T m') (sound : T.Sound p p') {a b i j : Nat} (hab : T.ref a b) (hij : T.ref i j) :
    Agree T.ref (m.indexRef a i) (m'.indexRef b j) := by
  refine (h.load sound hab).bind fun v w hv => ?_
  cases hv with
  | primitive hv => cases v <;> first | exact .fault _ _ | exact hv.elim
  | @array elements elements' hv =>
    refine (h.load sound hij).bind fun x y hx => ?_
    rw [← hx.integer?_eq]
    cases x.integer? with
    | none => exact .fault _ _
    | some position =>
      have found : Option.Rel T.ref (elementAt? elements position) (elementAt? elements' position) := by
        unfold elementAt?
        split
        · exact .none
        · exact getElem?_of_forall₂ hv _
      dsimp only
      generalize elementAt? elements position = r at found ⊢
      generalize elementAt? elements' position = r' at found ⊢
      cases found with
      | some found => exact .ok found
      | none => rw [hv.length_eq]; exact .raised _
  | _ => exact .fault _ _

/-- Evaluating a source and its translation. -/
theorem evaluate (h : m.Alike T m') (sound : T.Sound p p') {source : Source}
    (refs : ∀ r ∈ source.refs, T.ref r (T.slot r)) :
    Agree (Computed.Alike T.ref) (m.evaluate source) (m'.evaluate (source.translate T.slot)) := by
  have value : ∀ {r r' : Except Failure Value}, Agree (Value.Alike T.ref) r r' →
      Agree (Computed.Alike T.ref) (do return .pure (← r)) (do return .pure (← r')) := fun h =>
    h.bind fun v w hv => .ok (.pure hv)
  cases source with
  | integer | float | char | bool | string => exact .ok (.pure (.primitive trivial))
  | array elements => exact .ok (.pure (.array (forall₂_map_slot refs)))
  | tuple elements => exact .ok (.pure (.tuple (forall₂_map_slot refs)))
  | record fields =>
    have named : List.Forall₂ (Named T.ref) fields (fields.map fun p => (p.1, T.slot p.2)) :=
      forall₂_map_slot fun p hp => ⟨rfl, refs p.2 (List.mem_map_of_mem hp)⟩
    exact .ok (.pure (.record (Fields.ofList_named named)))
  | function id => exact .ok (.pure (.function .nil))
  | copy ref => exact value (h.load sound (refs ref (by simp [Source.refs])))
  | param position => exact value (h.param position)
  | field ref name =>
    exact (h.fieldRef sound (refs ref (by simp [Source.refs])) name).bind fun a b hab => value (h.load sound hab)
  | element ref position =>
    exact (h.elementRef sound (refs ref (by simp [Source.refs])) position).bind fun a b hab => value (h.load sound hab)
  | index ref position =>
    exact (h.indexRef sound (refs ref (by simp [Source.refs])) (refs position (by simp [Source.refs]))).bind
      fun a b hab => value (h.load sound hab)
  | apply ref args =>
    refine (h.load sound (refs ref (by simp [Source.refs]))).bind fun v w hv => ?_
    cases hv with
    | primitive hv => cases v <;> first | exact .fault _ _ | exact hv.elim
    | @function id a b hab =>
      have hargs : List.Forall₂ T.ref args (args.map T.slot) :=
        forall₂_map_slot fun r hr => refs r (by simp [Source.refs, hr])
      exact .ok (.pure (.function (List.rel_append hab hargs)))
    | _ => exact .fault _ _
  | binary left op right =>
    exact op.execute_agree sound.unique (sound.read h.slots)
      (.cons (refs left (by simp [Source.refs])) (.cons (refs right (by simp [Source.refs])) .nil))
  | unary op operand =>
    exact op.execute_agree sound.unique (sound.read h.slots) (.cons (refs operand (by simp [Source.refs])) .nil)
  | constant id => exact value (h.constants.read id)
  | error => exact value (orFault_agree h.pending.error? _ _)
  | named name =>
    exact (orFault_agree (Stack.resolve?_alike h.stack name) _ _).bind fun a b hab => value (h.load sound hab)

/-! ## Instructions that compute -/

theorem fieldStore (h : m.Alike T m') (sound : T.Sound p p') {a b v w : Nat} (hab : T.ref a b) (hvw : T.ref v w)
    (name : String) : Agree (fun x y => T.ref x.1 y.1 ∧ Value.Alike T.ref x.2 y.2) (m.fieldStore a name v)
      (m'.fieldStore b name w) :=
  (h.fieldRef sound hab name).bind fun _ _ hc => (h.load sound hvw).bind fun _ _ hv => .ok ⟨hc, hv⟩

theorem indexStore (h : m.Alike T m') (sound : T.Sound p p') {a b i j v w : Nat} (hab : T.ref a b) (hij : T.ref i j)
    (hvw : T.ref v w) : Agree (fun x y => T.ref x.1 y.1 ∧ Value.Alike T.ref x.2 y.2) (m.indexStore a i v)
      (m'.indexStore b j w) :=
  (h.indexRef sound hab hij).bind fun _ _ hc => (h.load sound hvw).bind fun _ _ hv => .ok ⟨hc, hv⟩

theorem constantStore (h : m.Alike T m') (sound : T.Sound p p') (id : Nat) {v w : Nat} (hvw : T.ref v w) :
    Agree (Constants.Alike T) (m.constantStore id v) (m'.constantStore id w) :=
  (h.load sound hvw).bind fun _ _ hv => h.constants.set id hv

theorem condition (h : m.Alike T m') (sound : T.Sound p p') {a b : Nat} (hab : T.ref a b) :
    Agree (fun x y => x = y) (ofCause (m.condition a)) (ofCause (m'.condition b)) := by
  refine (h.load sound hab).bindCause fun v w hv => ?_
  rw [← hv.bool?_eq]
  cases v.bool? with
  | some x => exact .ok rfl
  | none => exact .fault _ _

theorem mapM_read (h : m.Alike T m') (sound : T.Sound p p') {l l' : List Nat} (hl : List.Forall₂ T.ref l l') :
    Agree (List.Forall₂ (Value.Alike T.ref)) (ofCause (l.mapM m.slots.read)) (ofCause (l'.mapM m'.slots.read)) := by
  induction hl with
  | nil => exact .ok .nil
  | cons hab hl ih =>
    rw [List.mapM_cons, List.mapM_cons]
    exact (h.load sound hab).bindCause fun v w hv => ih.bindCause fun vs ws hvs => .ok (.cons hv hvs)

/-- The function that a call enters, and the values of its parameters. -/
theorem callee (h : m.Alike T m') (sound : T.Sound p p') {a b : Nat} (hab : T.ref a b) {l l' : List Nat}
    (hl : List.Forall₂ T.ref l l') : Agree (fun x y => x.1 = y.1 ∧ List.Forall₂ (Value.Alike T.ref) x.2 y.2)
      (ofCause (m.callee p a l)) (ofCause (m'.callee p' b l')) := by
  refine (h.load sound hab).bindCause fun v w hv => ?_
  cases hv with
  | primitive hv => cases v <;> first | exact .fault _ _ | exact hv.elim
  | @function id c c' hc =>
    dsimp only [Value.function?]
    cases hf : p.functions[id]? with
    | none => rw [sound.noFunction hf]; exact .fault _ _
    | some d =>
      obtain ⟨d', hd', params, -⟩ := sound.function hf
      rw [hd']
      dsimp only
      refine (h.mapM_read sound (List.rel_append hc hl)).bindCause fun vs ws hvs => ?_
      rw [← hvs.length_eq, params]
      split
      · exact .ok ⟨rfl, hvs⟩
      · exact .fault _ _
  | _ => exact .fault _ _

end Alike

end Machine

end SlotVM
