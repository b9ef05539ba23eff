/-
Texts that name places by labels and functions by their names. `symbolic_valid`: the program of such a text is valid
unless the start of a finally range is defined after its end, since labels lie in their function or at its end, and
names are those of functions.
-/
import SlotVM.Proofs.Assembly.Symbols
import SlotVM.Proofs.Program.Valid

namespace SlotVM

/-! ## Validation -/

/-- A program is valid if it has a function, and no instruction has a defect. -/
theorem Program.valid_iff {p : Program} : p.Valid ↔ p.functions ≠ #[] ∧
    ∀ f ∈ p.functions.toList, ∀ i ∈ f.code.toList, i.defect? p.functions.size f.code.size = none := by
  constructor
  · intro h
    refine ⟨fun empty => ?_, fun f hf i hi => ?_⟩
    · have entry := h.entry
      simp [empty] at entry
    · obtain ⟨id, hid⟩ := Array.mem_iff_getElem?.1 (Array.mem_toList_iff.1 hf)
      obtain ⟨pc, hpc⟩ := Array.mem_iff_getElem?.1 (Array.mem_toList_iff.1 hi)
      exact h.defect?_eq_none hid hpc
  · rintro ⟨nonempty, sound⟩
    unfold Valid invalid?
    rw [if_neg (by simpa using nonempty), List.findSome?_eq_none_iff]
    rintro ⟨f, id⟩ hf
    have hf : f ∈ p.functions.toList := List.fst_mem_of_mem_zipIdx hf
    refine List.findSome?_eq_none_iff.2 ?_
    rintro ⟨i, pc⟩ hi
    have hi : i ∈ f.code.toList := List.fst_mem_of_mem_zipIdx hi
    simp [sound f hf i hi]

/-- An instruction whose targets lie in its function and whose functions exist has no defect but for a finally range
that ends before it starts. -/
theorem Instruction.defect?_eq_none_iff {i : Instruction} {functions length : Nat}
    (targets : ∀ n ∈ i.targets, n ≤ length) (callees : ∀ id ∈ i.functions, id < functions) :
    i.defect? functions length = none ↔ ∀ s ∈ i.cleanup, s.start ≤ s.stop := by
  cases i with
  | jump target | branch _ _ target | branchConstant _ target =>
    simpa [defect?, outside?_eq_none, cleanup, Instruction.targets] using targets
  | pushLoop start stop =>
    simpa [defect?, Option.or_eq_none_iff, outside?_eq_none, cleanup, Instruction.targets] using targets
  | pushTry catches range =>
    obtain ⟨handlers, ends⟩ := List.forall_mem_append.1 targets
    have handlers : ∀ c ∈ catches, outside? length .handler c.handler = none := fun c mem =>
      outside?_eq_none.2 (handlers c.handler (List.mem_map_of_mem mem))
    have inside : ∀ s ∈ range, s.stop ≤ length := by
      rintro s ⟨⟩
      exact ends s.stop (List.mem_cons_of_mem _ (List.mem_singleton_self _))
    simp only [defect?, Option.or_eq_none_iff, List.findSome?_eq_none_iff.2 handlers, true_and, cleanup]
    cases range with
    | none => simp
    | some s => simpa [Span.defect?_eq_none] using fun _ => inside s rfl
  | assign target source =>
    cases source with
    | function id => simpa [defect?, cleanup, Instruction.functions] using callees
    | _ => simp [defect?, cleanup]
  | _ => simp [defect?, cleanup]

namespace Assembly

open Decimal

/-! ## Symbolic texts -/

/-- A text in which no jump target and no function is a number. -/
def Symbolic (source : String) : Prop :=
  ∀ ls, tokenLines source = .ok ls → ∀ line ∈ ls, (∀ operand ∈ lineTargets line, unsigned? operand.text = none) ∧
    ∀ operand ∈ lineFunctions line, unsigned? operand.callee = none

/-- A text in which the start of a finally range is defined at a later position than its end. -/
def ReversedCleanup (source : String) : Prop :=
  ∃ ts t line start stop m n, Layout source ts ∧ t ∈ ts ∧ line ∈ t.statements ∧ lineRange line = [start, stop] ∧
    t.Defines start.text m ∧ t.Defines stop.text n ∧ n < m

variable {source : String} {ts : List FunctionText} {t : FunctionText} {line : List Token} {p : Program} {f : FunctionDef}
  {i : Instruction}

theorem FunctionText.Defines.unique (h : t.Sound) {name : String} {m n : Nat} (hm : t.Defines name m)
    (hn : t.Defines name n) : m = n :=
  Option.some.inj (((lookup_labels h).2 hm).symm.trans ((lookup_labels h).2 hn))

theorem lineRange_subset : ∀ operand ∈ lineRange line, operand ∈ lineTargets line := by
  cases line with
  | nil => exact List.forall_mem_nil _
  | cons head operands =>
    intro operand mem
    change operand ∈ rangeOperands head.text operands at mem
    show operand ∈ targetOperands head.text operands
    by_cases mnemonic : head.text = "push_try"
    · rw [mnemonic] at mem ⊢
      exact List.mem_append_right _ mem
    · unfold rangeOperands at mem
      simp at mem

section
variable (symbolic : Symbolic source) (layout : Layout source ts) (ht : t ∈ ts) (hline : line ∈ t.statements)
include symbolic layout ht hline

theorem symbolic_line : (∀ operand ∈ lineTargets line, unsigned? operand.text = none) ∧
    ∀ operand ∈ lineFunctions line, unsigned? operand.callee = none := by
  obtain ⟨ls, read, mem⟩ := layout.mem_lines
  have body : line ∈ t.body := (List.mem_filter.1 hline).1
  exact symbolic ls read line (mem t ht line (List.mem_append_left _ (List.mem_cons_of_mem _ body)))

variable (made : statement (t.names ts) line = .ok i)
include made

/-- In a symbolic text that assembles, a jump target stands for the place where a label of the function is defined. -/
theorem symbolic_places : List.Forall₂ (fun operand n => t.Defines operand.text n) (lineTargets line) i.targets ∧
    List.Forall₂ (fun operand n => t.Defines operand.text n) (lineRange line) (rangeEnds i.cleanup) := by
  obtain ⟨labels, -⟩ := symbolic_line symbolic layout ht hline
  obtain ⟨targets, range, -⟩ := statement_denotes made
  have defines {operand : Token} {n : Nat} (mem : operand ∈ lineTargets line)
      (ok : (t.names ts).target operand = .ok n) : t.Defines operand.text n :=
    ((target_of_ok (layout.sound t ht) ok).label (labels operand mem) n).2 rfl
  constructor
  · exact (forall₂_mem targets).imp fun operand n ⟨mem, ok⟩ => defines mem ok
  · exact (forall₂_mem range).imp fun operand n ⟨mem, ok⟩ => defines (lineRange_subset operand mem) ok

/-- The labels of its finally range are in reverse order if and only if the range is. -/
theorem symbolic_reversed : (∃ start stop m n, lineRange line = [start, stop] ∧ t.Defines start.text m ∧
    t.Defines stop.text n ∧ n < m) ↔ ∃ s ∈ i.cleanup, s.stop < s.start := by
  obtain ⟨-, ends⟩ := symbolic_places symbolic layout ht hline made
  constructor
  · rintro ⟨start, stop, m, n, range, hm, hn, reversed⟩
    rw [range] at ends
    cases cleanup : i.cleanup with
    | none => rw [cleanup] at ends; cases ends
    | some s =>
      rw [cleanup] at ends
      obtain ⟨hstart, ends⟩ := List.forall₂_cons.1 ends
      obtain ⟨hstop, -⟩ := List.forall₂_cons.1 ends
      have labels := layout.sound t ht
      rw [hm.unique labels hstart, hn.unique labels hstop] at reversed
      exact ⟨s, rfl, reversed⟩
  · rintro ⟨s, hs, reversed⟩
    rw [hs] at ends
    obtain ⟨start, _, hstart, ends, range⟩ := List.forall₂_cons_right_iff.1 ends
    obtain ⟨stop, _, hstop, none, rfl⟩ := List.forall₂_cons_right_iff.1 ends
    cases List.forall₂_nil_right_iff.1 none
    exact ⟨start, stop, _, _, range, hstart, hstop, reversed⟩

/-- A name stands for a function of the text. -/
theorem symbolic_functions : ∀ id ∈ i.functions, id < ts.length := by
  obtain ⟨-, names⟩ := symbolic_line symbolic layout ht hline
  obtain ⟨-, -, functions⟩ := statement_denotes made
  intro id hid
  obtain ⟨operand, mem, ok⟩ := exists_of_forall₂ functions.flip id hid
  obtain ⟨-, name, mark, -, position⟩ := callee_of_ok layout.names ok
  obtain ⟨u, hu, -⟩ := (position (callee_of_mark mark ▸ names operand mem) id).2 rfl
  exact (List.getElem?_eq_some_iff.1 hu).1

/-- All that can be wrong with an instruction of a symbolic text is that its finally range is reversed. -/
theorem symbolic_defect (functions : ts.length = p.functions.size) (code : t.statements.length = f.code.size) :
    i.defect? p.functions.size f.code.size = none ↔ ∀ s ∈ i.cleanup, s.start ≤ s.stop := by
  obtain ⟨places, -⟩ := symbolic_places symbolic layout ht hline made
  have targets : ∀ n ∈ i.targets, n ≤ f.code.size := by
    intro n hn
    obtain ⟨operand, -, defines⟩ := exists_of_forall₂ places.flip n hn
    exact code ▸ FunctionText.Defines.le defines
  have callees : ∀ id ∈ i.functions, id < p.functions.size :=
    functions ▸ symbolic_functions symbolic layout ht hline made
  exact Instruction.defect?_eq_none_iff targets callees

end

/-- The program of a symbolic text is valid if and only if no finally range is reversed. -/
theorem symbolic_valid (h : assemble source = .ok p) (symbolic : Symbolic source) :
    p.Valid ↔ ¬ ReversedCleanup source := by
  rw [Program.valid_iff]
  constructor
  · rintro ⟨-, sound⟩ ⟨ts, t, line, start, stop, m, n, layout, ht, hline, reversed⟩
    have means := (assemble_of_layout layout).1 h
    obtain ⟨f, hf, meaning⟩ := exists_of_forall₂ means t ht
    obtain ⟨i, hi, made⟩ := exists_of_forall₂ meaning.code line hline
    have ordered := (symbolic_defect symbolic layout ht hline made means.length_eq meaning.code.length_eq).1 (sound f hf i hi)
    obtain ⟨s, hs, backwards⟩ := (symbolic_reversed symbolic layout ht hline made).1 ⟨start, stop, m, n, reversed⟩
    exact Nat.not_lt_of_le (ordered s hs) backwards
  · intro ordered
    obtain ⟨ts, layout, means⟩ := assemble_ok_iff.1 h
    refine ⟨fun empty => ?_, fun f hf i hi => ?_⟩
    · rw [empty] at means
      exact layout.nonempty (List.forall₂_nil_right_iff.1 means)
    · obtain ⟨t, ht, meaning⟩ := exists_of_forall₂ means.flip f hf
      obtain ⟨line, hline, made⟩ := exists_of_forall₂ meaning.code.flip i hi
      refine (symbolic_defect symbolic layout ht hline made means.length_eq meaning.code.length_eq).2 fun s hs => ?_
      by_contra backwards
      obtain ⟨start, stop, m, n, reversed⟩ :=
        (symbolic_reversed symbolic layout ht hline made).2 ⟨s, hs, Nat.lt_of_not_le backwards⟩
      exact ordered ⟨ts, t, line, start, stop, m, n, layout, ht, hline, reversed⟩

/-- A text whose finally range starts at a label that is defined after its end. -/
def reversedText : String := "fn main 0\npush_try finally b a\na:\nfunc r0 @main\nb:\nend"

/-- The program that it assembles to. -/
def reversedProgram : Program := ⟨#[⟨"main", 0, #[.pushTry [] (some ⟨2, 1⟩), .assign 0 (.function 0)]⟩]⟩

theorem symbolic_valid_reversed : assemble reversedText = .ok reversedProgram ∧ Symbolic reversedText ∧
    ¬ reversedProgram.Valid ∧ (reversedProgram.Valid ↔ ¬ ReversedCleanup reversedText) := by
  have assembles : assemble reversedText = .ok reversedProgram := by
    rw [assemble_eq]; rfl
  have read : tokenLines reversedText = .ok [[word "fn", word "main", word "0"],
      [word "push_try", word "finally", word "b", word "a"], [word "a:"], [word "func", word "r0", word "@main"],
      [word "b:"], [word "end"]] := by rfl
  have symbolic : Symbolic reversedText := by
    intro ls h
    cases read.symm.trans h
    decide
  exact ⟨assembles, symbolic, by decide, symbolic_valid assembles symbolic⟩

end Assembly

end SlotVM
