/-
Transitions of alike machines. `Alike.advance`: if both are at the same instruction whenever one is about to
execute one, their transitions end in alike machines, or both with a fault.
-/
import SlotVM.Proofs.Translation.Transfer

namespace SlotVM.Machine

open Transition

variable {T : Translation} {p p' : Program} {m m' : Machine}

/-! ## Instructions -/

namespace Alike

theorem throw (h : m.Alike T m') {v w : Value} (hvw : v.Alike T.ref w) : (m.throw v).Alike T (m'.throw w) :=
  { h with pending := .active hvw }

theorem store (h : m.Alike T m') (sound : T.Sound p p') {a b : Nat} (hab : T.ref a b) {v w : Value}
    (hvw : v.Alike T.ref w) : (m.store a v).Alike T (m'.store b w) :=
  { h with slots := sound.write h.slots hab hvw }

theorem storeComputed (h : m.Alike T m') (sound : T.Sound p p') {a b : Nat} (hab : T.ref a b) {c c' : Computed}
    (hc : c.Alike T.ref c') : (m.storeComputed a c).Alike T (m'.storeComputed b c') := by
  have stored : T.slots (c.store m.slots) (c'.store m'.slots) := by
    have hs := hc.stored
    unfold Computed.store
    generalize c.stored = x at hs ⊢
    generalize c'.stored = y at hs ⊢
    cases hs with
    | none => exact h.slots
    | some hs => exact sound.write h.slots hs.1 hs.2
  exact { h with slots := sound.write stored hab hc.value }

/-- The end of an instruction that computes and stores. -/
theorem conclude {α β : Type} {R : α → β → Prop} (h : m.Alike T m') (sound : T.Sound p p')
    (code : T.code m.function m.pc m'.pc) {r : Except Failure α} {r' : Except Failure β} (hr : Agree R r r')
    {change : Machine → α → Machine} {change' : Machine → β → Machine}
    (hc : ∀ a b, R a b → (change m a).Alike T (change' m' b)) (stays : ∀ a, (change m a).function = m.function ∧
      (change m a).pc = m.pc) (stays' : ∀ b, (change' m' b).pc = m'.pc) :
    Transition.Alike T (m.conclude r change) (m'.conclude r' change') := by
  unfold Machine.conclude
  cases hr with
  | @ok a b hab =>
    refine (hc a b hab).next sound ?_
    rw [(stays a).1, (stays a).2, stays' b]
    exact code
  | raised failure =>
    have thrown : (Value.string failure.message).Alike T.ref (.string failure.message) := .primitive trivial
    exact .note (.note (.done (h.throw thrown)) _ _) _ _
  | fault c c' => exact .fail _ _

theorem withResult {α β : Type} {R : α → β → Prop} {r : Except Cause α} {r' : Except Cause β}
    (hr : Agree R (ofCause r) (ofCause r')) {k : Machine → α → Transition} {k' : Machine → β → Transition}
    (hk : ∀ a b, R a b → Transition.Alike T (k m a) (k' m' b)) :
    Transition.Alike T (m.withResult r k) (m'.withResult r' k') := by
  unfold Machine.withResult
  cases r with
  | ok a =>
    cases r' with
    | ok b => cases hr with | ok hr => exact hk a b hr
    | error c => cases hr
  | error c =>
    cases r' with
    | ok b => cases hr
    | error c' => exact .fail _ _

/-- Entering the same function. -/
theorem calling (h : m.Alike T m') (sound : T.Sound p p') (code : T.code m.function m.pc m'.pc) {a b : Nat}
    (hab : T.ref a b) (function : Nat) {vs ws : List Value} (hvs : List.Forall₂ (Value.Alike T.ref) vs ws) :
    (m.calling a function vs).Alike T (m'.calling b function ws) :=
  { h with
    stack := .cons .nil (.call ⟨rfl, hvs, .some hab, .some ⟨h.function, h.frame, code⟩⟩) h.stack
    function := rfl
    frame := h.depth_eq
    pc := sound.start function }

theorem pushFrame (h : m.Alike T m') (sound : T.Sound p p') (code : T.code m.function m.pc m'.pc)
    (top : AtTop m.stack.kinds m.function m.frame) {k k' : FrameKind} (kind : k.Alike T m.function k') :
    Transition.Alike T (done (m.pushFrame k).next) (done (m'.pushFrame k').next) := by
  have bare : Scope.empty.Alike T Scope.empty := .nil
  have pushed := h.push top bare kind
  exact pushed.next sound code

/-- A jump that depends on a condition. -/
theorem jumpIf (h : m.Alike T m') (sound : T.Sound p p') (code : T.code m.function m.pc m'.pc) (target : Nat)
    (c : Prop) [Decidable c] :
    Transition.Alike T (done (if c then { m with pc := target } else m.next))
      (done (if c then { m' with pc := T.goal m.function target } else m'.next)) := by
  split
  · exact .done { h with pc := sound.goal _ _ }
  · exact h.next sound code

/-- Executing an instruction and its translation. -/
theorem perform (h : m.Alike T m') (sound : T.Sound p p') (wf : m.WellFormed p)
    (top : AtTop m.stack.kinds m.function m.frame) {i : Instruction} (at_ : p.At m.function m.pc i)
    (code : T.code m.function m.pc m'.pc) :
    Transition.Alike T (m.perform p i) (m'.perform p' (i.translate T.slot (T.goal m.function))) := by
  have refs := sound.refs at_
  unfold Machine.perform Instruction.translate
  cases i with
  | assign target source =>
    have hs : ∀ r ∈ source.refs, T.ref r (T.slot r) := fun r hr => refs r (List.mem_cons_of_mem _ hr)
    exact h.conclude sound code (h.evaluate sound hs)
      (fun c c' hc => h.storeComputed sound (refs target (List.mem_cons_self ..)) hc) (fun _ => ⟨rfl, rfl⟩) (fun _ => rfl)
  | setField ref name value =>
    exact h.conclude sound code
      (h.fieldStore sound (refs ref (by simp [Instruction.refs])) (refs value (by simp [Instruction.refs])) name)
      (fun _ _ hc => h.store sound hc.1 hc.2) (fun _ => ⟨rfl, rfl⟩) (fun _ => rfl)
  | setIndex ref index value =>
    exact h.conclude sound code
      (h.indexStore sound (refs ref (by simp [Instruction.refs])) (refs index (by simp [Instruction.refs]))
        (refs value (by simp [Instruction.refs])))
      (fun _ _ hc => h.store sound hc.1 hc.2) (fun _ => ⟨rfl, rfl⟩) (fun _ => rfl)
  | setConstant id value =>
    exact h.conclude sound code (h.constantStore sound id (refs value (by simp [Instruction.refs])))
      (fun _ _ hc => { h with constants := hc }) (fun _ => ⟨rfl, rfl⟩) (fun _ => rfl)
  | call target ref args =>
    have hargs : List.Forall₂ T.ref args (args.map T.slot) :=
      forall₂_map_slot fun r hr => refs r (by simp [Instruction.refs, hr])
    refine withResult (h.callee sound (refs ref (by simp [Instruction.refs])) hargs) ?_
    rintro ⟨function, vs⟩ ⟨function', ws⟩ ⟨hf, hvs⟩
    dsimp only at hf hvs
    subst hf
    exact .note (.done (h.calling sound code (refs target (by simp [Instruction.refs])) function hvs)) _ _
  | bind name ref =>
    refine withResult (Stack.bind_agree h.stack name (refs ref (by simp [Instruction.refs]))) fun s s' hs => ?_
    exact .done { h with stack := hs, pc := sound.next code }
  | pushScope => exact h.pushFrame sound code top .scope
  | pushLoop start stop => exact h.pushFrame sound code top (.loop start stop)
  | pushTry catches cleanup => exact h.pushFrame sound code top (.attempt catches cleanup)
  | popFrame => exact h.popFrame sound wf code
  | jump target => exact .done { h with pc := sound.goal _ _ }
  | branch on ref target =>
    refine withResult (h.condition sound (refs ref (by simp [Instruction.refs]))) ?_
    rintro b _ rfl
    exact h.jumpIf sound code target (b = on)
  | branchConstant id target =>
    show Transition.Alike T _ (done (if m'.constants.contains id then _ else _))
    rw [← h.constants.contains_eq]
    exact h.jumpIf sound code target (m.constants.contains id = true)
  | nop => exact h.next sound code
  | ret ref =>
    refine withResult (Slots.read_agree (sound.read h.slots _ _ (refs ref (by simp [Instruction.refs])))) ?_
    exact fun v w hv => h.beginReturn sound wf (.some hv) true
  | throw ref =>
    refine withResult (Slots.read_agree (sound.read h.slots _ _ (refs ref (by simp [Instruction.refs])))) ?_
    exact fun v w hv => .note (.done (h.throw hv)) _ _
  | exitLoop exit depth =>
    show Transition.Alike T (m.exitLoop exit depth depth m.available) (m'.exitLoop exit depth depth m'.available)
    rw [h.available_eq]
    exact h.exitLoop sound exit depth wf (Nat.le_refl _)

theorem execute (h : m.Alike T m') (sound : T.Sound p p') (wf : m.WellFormed p)
    (top : AtTop m.stack.kinds m.function m.frame) (code : T.code m.function m.pc m'.pc) :
    Transition.Alike T (m.execute p) (m'.execute p') := by
  unfold Machine.execute
  rw [h.function]
  cases hf : p.functions[m.function]? with
  | none =>
    rw [sound.noFunction hf]
    exact .fail _ _
  | some d =>
    obtain ⟨d', hd', -, hcode⟩ := sound.function hf
    rw [hd']
    dsimp only
    rw [hcode code]
    cases hi : d.code[m.pc]? with
    | none => exact .note (h.beginReturn sound wf .none false) _ _
    | some i => exact .note (h.perform sound wf top ⟨d, hf, hi⟩ code) _ _

/-! ## Transitions -/

/-- The end of a block is reached at the same time. -/
theorem ends_iff (h : m.Alike T m') (sound : T.Sound p p') (wf : m.WellFormed p)
    (top : AtTop m.stack.kinds m.function m.frame) {r r' : Region} (mem : r ∈ m.regions) (hr : r.Alike T r') :
    (m'.frame = r'.frame ∧ r'.range.stop ≤ m'.pc) ↔ (m.frame = r.frame ∧ r.range.stop ≤ m.pc) := by
  rw [h.frame, hr.frame, hr.range]
  refine and_congr_right fun frame => ?_
  have function : r.function = m.function := by
    -- the frame of the block's function is the topmost function frame
    obtain ⟨c, hc, hrf⟩ := (wf.regions r mem).top
    obtain ⟨d, hd, hmf⟩ := top
    obtain ⟨j, e, he, -, heq⟩ := topCall?_of_suffix (bottom_suffix _ _) hc
    rw [hd, Option.some.injEq, Prod.mk.injEq] at he
    rw [← hrf, ← hmf, heq (frame.symm.trans he.1), he.2]
  rw [function]
  exact (sound.stop h.pc _).symm

/-- Transitions of alike machines. -/
theorem advance (h : m.Alike T m') (sound : T.Sound p p') (wf : m.WellFormed p) (running : m.halted = false)
    (code : m.Runs → T.code m.function m.pc m'.pc) : Transition.Alike T (m.advance p) (m'.advance p') := by
  have top := wf.top_of_running running
  have hregions := h.regions
  have unwinds : Transition.Alike T (m.unwind m.available) (m'.unwind m.available) :=
    h.unwind sound wf (Nat.le_refl _)
  unfold Machine.advance
  rw [h.pending.isActive_eq, h.depth_eq]
  cases hm : m.regions with
  | nil =>
    rw [hm] at hregions
    cases hm' : m'.regions with
    | cons => rw [hm'] at hregions; cases hregions
    | nil =>
      dsimp only
      split
      · have all : m.available = m.stack.depth := by simp [available, floor, hm]
        exact all ▸ unwinds
      · rename_i settled
        exact h.execute sound wf top (code ⟨by simpa using settled, by simp [hm]⟩)
  | cons r outer =>
    rw [hm] at hregions
    cases hm' : m'.regions with
    | nil => rw [hm'] at hregions; cases hregions
    | cons r' outer' =>
      rw [hm'] at hregions
      cases hregions with
      | cons hr houter =>
        dsimp only
        rw [hr.floor]
        split
        · rename_i active
          split
          · rename_i depth
            exact h.abandon sound wf hm hr houter active depth
          · have above : m.available = m.stack.depth - r.floor := by simp only [available, floor, hm]
            exact above ▸ unwinds
        · rename_i settled
          have settled : m.pending.isActive = false := by simpa using settled
          by_cases hend : m.frame = r.frame ∧ r.range.stop ≤ m.pc
          · rw [if_pos hend, if_pos ((h.ends_iff sound wf top (by simp [hm]) hr).2 hend)]
            exact h.complete sound wf hm hr houter settled hend.1 hend.2
          · rw [if_neg hend, if_neg (hend ∘ (h.ends_iff sound wf top (by simp [hm]) hr).1)]
            refine h.execute sound wf top (code ⟨settled, ?_⟩)
            intro q qs hq
            rw [hm] at hq
            cases hq
            exact hend

end Alike

end SlotVM.Machine
