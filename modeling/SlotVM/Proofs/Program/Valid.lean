/-
What validation promises of a program: there is an entry function, every target of an instruction lies
in its own function, every finally range is one of its own function, and every function that is named
exists.
-/
import SlotVM.Program.Validate
import SlotVM.Proofs.Machine.Move

namespace SlotVM

/-! ## Places in a program -/

namespace Program

/-- The instruction at a place. -/
def At (p : Program) (function pc : Nat) (i : Instruction) : Prop :=
  ∃ f, p.functions[function]? = some f ∧ f.code[pc]? = some i

/-- A place where a function can go on: one of its instructions, or its end. -/
def Target (p : Program) (function pc : Nat) : Prop :=
  ∃ f, p.functions[function]? = some f ∧ pc ≤ f.code.size

end Program

/-- Where an instruction may jump to. -/
def Instruction.target? : Instruction → Option Nat
  | .jump target | .branch _ _ target | .branchConstant _ target => some target
  | _ => none

/-- A range of instructions of a function. -/
structure Span.Within (s : Span) (p : Program) (function : Nat) : Prop where
  ordered : s.start ≤ s.stop
  stop : p.Target function s.stop

/-- Every place that a frame names lies in the function that owns the frame. -/
def FrameKind.Within (p : Program) (function : Nat) : FrameKind → Prop
  | .loop start stop => p.Target function start ∧ p.Target function stop
  | .attempt catches cleanup =>
    (∀ c ∈ catches, p.Target function c.handler) ∧ ∀ s ∈ cleanup, s.Within p function
  | .scope | .call _ => True

theorem Program.At.target {p : Program} {function pc : Nat} {i : Instruction} (h : p.At function pc i) :
    p.Target function pc := by
  obtain ⟨f, hf, hi⟩ := h
  obtain ⟨hlt, -⟩ := Array.getElem?_eq_some_iff.1 hi
  exact ⟨f, hf, Nat.le_of_lt hlt⟩

theorem Program.At.target_succ {p : Program} {function pc : Nat} {i : Instruction}
    (h : p.At function pc i) : p.Target function (pc + 1) := by
  obtain ⟨f, hf, hi⟩ := h
  obtain ⟨hlt, -⟩ := Array.getElem?_eq_some_iff.1 hi
  exact ⟨f, hf, hlt⟩

theorem Program.Target.mono {p : Program} {function pc pc' : Nat} (h : p.Target function pc) (hle : pc' ≤ pc) :
    p.Target function pc' := by
  obtain ⟨f, hf, h⟩ := h
  exact ⟨f, hf, Nat.le_trans hle h⟩

/-! ## Slots of a program -/

namespace Program

variable {p : Program}

theorem mem_refs {f pc : Nat} {i : Instruction} (at_ : p.At f pc i) {r : Nat} (hr : r ∈ i.refs) : r ∈ p.refs := by
  obtain ⟨d, hd, hi⟩ := at_
  refine List.mem_flatMap.2 ⟨d, ?_, List.mem_flatMap.2 ⟨i, ?_, hr⟩⟩
  · exact Array.mem_toList_iff.2 (Array.mem_of_getElem? hd)
  · exact Array.mem_toList_iff.2 (Array.mem_of_getElem? hi)

theorem lt_slotCount {r : Nat} (hr : r ∈ p.refs) : r < p.slotCount := by
  unfold slotCount
  cases hmax : p.refs.max? with
  | none =>
    rw [List.max?_eq_none_iff.1 hmax] at hr
    cases hr
  | some highest => exact Nat.lt_succ_of_le ((List.max?_eq_some_iff.1 hmax).2 r hr)

end Program

/-! ## Defects -/

theorem outside?_eq_none {length target : Nat} {role : TargetRole} :
    outside? length role target = none ↔ target ≤ length := by
  simp [outside?]

theorem Span.defect?_eq_none {length : Nat} {s : Span} :
    s.defect? length = none ↔ s.stop ≤ length ∧ s.start ≤ s.stop := by
  simp [Span.defect?, Option.or_eq_none_iff, outside?_eq_none]

namespace Program.Valid

variable {p : Program}

theorem entry (h : p.Valid) : 0 < p.functions.size := by
  unfold Valid invalid? at h
  split at h
  · cases h
  · rename_i hne
    simpa [Array.size_pos_iff] using hne

/-- No instruction of a valid program has a defect. -/
theorem defect?_eq_none (h : p.Valid) {id pc : Nat} {f : FunctionDef} {i : Instruction}
    (hf : p.functions[id]? = some f) (hi : f.code[pc]? = some i) :
    i.defect? p.functions.size f.code.size = none := by
  unfold Valid invalid? at h
  split at h
  · cases h
  · have hf' := List.findSome?_eq_none_iff.1 h (f, id)
      (List.mem_zipIdx_iff_getElem?.2 (by simpa using hf))
    have hi' := List.findSome?_eq_none_iff.1 hf' (i, pc)
      (List.mem_zipIdx_iff_getElem?.2 (by simpa using hi))
    simpa using hi'

/-- The places that a pushed frame names lie in the function that pushes it. -/
theorem frame (h : p.Valid) {function pc : Nat} {i : Instruction} {k : FrameKind}
    (at_ : p.At function pc i) (hk : i.frame? = some k) : k.Within p function := by
  obtain ⟨f, hf, hi⟩ := at_
  have hd := h.defect?_eq_none hf hi
  cases i with
  | pushScope => cases hk; trivial
  | pushLoop start stop =>
    cases hk
    obtain ⟨h1, h2⟩ := Option.or_eq_none_iff.1 hd
    exact ⟨⟨f, hf, outside?_eq_none.1 h1⟩, f, hf, outside?_eq_none.1 h2⟩
  | pushTry catches cleanup =>
    cases hk
    obtain ⟨h1, h2⟩ := Option.or_eq_none_iff.1 hd
    constructor
    · intro c hc
      exact ⟨f, hf, outside?_eq_none.1 (List.findSome?_eq_none_iff.1 h1 c hc)⟩
    · rintro s ⟨⟩
      obtain ⟨hstop, hord⟩ := Span.defect?_eq_none.1 h2
      exact ⟨hord, f, hf, hstop⟩
  | _ => cases hk

/-- A jump goes to a place of its own function. -/
theorem target (h : p.Valid) {function pc t : Nat} {i : Instruction} (at_ : p.At function pc i)
    (ht : i.target? = some t) : p.Target function t := by
  obtain ⟨f, hf, hi⟩ := at_
  have hd := h.defect?_eq_none hf hi
  cases i with
  | jump | branch | branchConstant =>
    cases ht
    exact ⟨f, hf, outside?_eq_none.1 hd⟩
  | _ => cases ht

/-- A function that an instruction names exists. -/
theorem function_lt (h : p.Valid) {function pc target id : Nat}
    (at_ : p.At function pc (.assign target (.function id))) : id < p.functions.size := by
  obtain ⟨f, hf, hi⟩ := at_
  have hd := h.defect?_eq_none hf hi
  simpa [Instruction.defect?] using hd

end Program.Valid

end SlotVM
