/-
How frames lie on each other in a run of a valid program. A function frame lies on the function frame that
called it, and any other frame on that of the function that owns it; every place that a frame or a running
finally block keeps for later lies in that function.
-/
import SlotVM.Proofs.Program.Valid

namespace SlotVM

/-! ## Frames -/

/-- The frame of the entry function. -/
structure CallFrame.IsEntry (c : CallFrame) : Prop where
  function : c.function = Program.entryId
  args : c.args.length = 1
  returnTarget : c.returnTarget = none
  caller : c.caller = none

/-- The frame of a function that was called from the function frame `d` at height `h`. -/
structure CallFrame.CalledFrom (c : CallFrame) (p : Program) (h : Nat) (d : CallFrame) : Prop where
  caller : ∃ pc target ref args, c.caller = some ⟨d.function, h, pc⟩ ∧
    p.At d.function pc (.call target ref args) ∧ c.returnTarget = some target
  args : ∃ g, p.functions[c.function]? = some g ∧ c.args.length = g.params

/-- A frame of this kind can lie on frames of the kinds `below`. -/
def FrameKind.Rests (p : Program) (below : List FrameKind) (k : FrameKind) : Prop :=
  match k.call?, topCall? below with
  | some c, some (h, d) => c.CalledFrom p h d
  | some c, none => c.IsEntry ∧ below = []
  | none, some (_, d) => k.Within p d.function
  | none, none => False

/-- Every frame can lie on those below it. -/
def Stacked (p : Program) : List FrameKind → Prop
  | [] => True
  | k :: below => k.Rests p below ∧ Stacked p below

/-- The topmost function frame is that of `function`, at the height `frame`. -/
def AtTop (ks : List FrameKind) (function frame : Nat) : Prop :=
  ∃ c, topCall? ks = some (frame, c) ∧ c.function = function

section
variable {p : Program} {k : FrameKind} {below : List FrameKind} {c : CallFrame}

theorem AtTop.ne_nil {ks : List FrameKind} {function frame : Nat} (h : AtTop ks function frame) :
    ks ≠ [] := by
  rintro rfl
  obtain ⟨c, hc, -⟩ := h
  cases hc

theorem AtTop.function_eq {ks : List FrameKind} {f g frame : Nat} (h : AtTop ks f frame)
    (h' : AtTop ks g frame) : f = g := by
  obtain ⟨c, hc, rfl⟩ := h
  obtain ⟨d, hd, rfl⟩ := h'
  rw [hc] at hd; cases hd; rfl

theorem AtTop.tail {function frame : Nat} (hk : k.call? = none) (h : AtTop (k :: below) function frame) :
    AtTop below function frame := by
  unfold AtTop at h
  rwa [topCall?_cons hk] at h

theorem AtTop.cons {function frame : Nat} (hk : k.call? = none) (h : AtTop below function frame) :
    AtTop (k :: below) function frame := by
  unfold AtTop
  rwa [topCall?_cons hk]

/-- A frame that is not a function's rests on the function that owns it. -/
theorem FrameKind.Rests.within {function frame : Nat} (hk : k.call? = none) (h : k.Rests p below)
    (top : AtTop below function frame) : k.Within p function := by
  obtain ⟨c, hc, rfl⟩ := top
  simpa [Rests, hk, hc] using h

theorem FrameKind.Rests.of_within {function frame : Nat} (hk : k.call? = none)
    (top : AtTop below function frame) (h : k.Within p function) : k.Rests p below := by
  obtain ⟨c, hc, rfl⟩ := top
  simpa [Rests, hk, hc] using h

theorem FrameKind.Rests.call (h : (FrameKind.call c).Rests p below) :
    (c.IsEntry ∧ below = []) ∨ ∃ i d, topCall? below = some (i, d) ∧ c.CalledFrom p i d := by
  cases hb : topCall? below with
  | none => exact .inl (by simpa [Rests, FrameKind.call?, hb] using h)
  | some e => exact .inr ⟨e.1, e.2, rfl, by simpa [Rests, FrameKind.call?, hb] using h⟩

end

/-! ## Transfers and regions -/

/-- Every place that a transfer goes on at lies in the function whose instruction `pc` it interrupts. -/
def Transfer.Within (p : Program) (function pc : Nat) : Transfer → Prop
  | .pop => p.Target function (pc + 1)
  | .unwind _ catches => ∀ c ∈ catches, p.Target function c.handler
  | .exitLoop _ _ _ | .ret _ _ => True

theorem Transfer.Passes.call? {t : Transfer} {k : FrameKind} (h : t.Passes k) : k.call? = none := by
  cases k with
  | call c => simp [Passes] at h
  | _ => rfl

theorem Transfer.Within.past {p : Program} {function pc : Nat} {t : Transfer} {f : Frame}
    (h : t.Within p function pc) (hf : f.kind.Within p function) : (t.past f).Within p function pc := by
  cases t with
  | unwind scope catches =>
    cases hk : f.kind with
    | attempt catches' cleanup =>
      rw [hk] at hf
      simpa [Transfer.past, hk, Within] using hf.1
    | _ => simp [Transfer.past, hk, Within]
  | exitLoop exit depth remaining => cases remaining <;> cases hk : f.kind <;> simp [Transfer.past, hk, Within]
  | pop => exact h
  | ret value explicit => trivial

/-- A region over frames of these kinds. -/
structure Region.WellFormed (r : Region) (p : Program) (ks : List FrameKind) : Prop where
  floor : r.floor ≤ ks.length
  top : AtTop (bottom r.floor ks) r.function r.frame
  range : r.range.Within p r.function
  resume : p.Target r.function r.resume
  transfer : r.transfer.Within p r.function r.resume

theorem Region.WellFormed.cons {p : Program} {r : Region} {ks : List FrameKind} (k : FrameKind)
    (h : r.WellFormed p ks) : r.WellFormed p (k :: ks) where
  floor := Nat.le_succ_of_le h.floor
  top := by rw [bottom_cons k h.floor]; exact h.top
  range := h.range
  resume := h.resume
  transfer := h.transfer

theorem Region.WellFormed.tail {p : Program} {r : Region} {k : FrameKind} {ks : List FrameKind}
    (h : r.WellFormed p (k :: ks)) (floor : r.floor ≤ ks.length) : r.WellFormed p ks where
  floor
  top := by rw [← bottom_cons k floor]; exact h.top
  range := h.range
  resume := h.resume
  transfer := h.transfer

end SlotVM
