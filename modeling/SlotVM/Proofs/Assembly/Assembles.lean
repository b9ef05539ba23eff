/-
What a program text stands for, over its layout. `assemble_ok_iff`: a text assembles to a program if and only
if the functions of the program are those of the layout in their order, each instruction what its line says
with the positions of functions and labels for their names.
-/
import SlotVM.Proofs.Assembly.Layout
import SlotVM.Proofs.Assembly.Operands

namespace SlotVM.Assembly

open Decimal

variable {ts : List FunctionText} {t : FunctionText}

/-- The names that the instructions of a function may use: the positions of the functions of the text, and of
the labels of the function. -/
def FunctionText.names (ts : List FunctionText) (t : FunctionText) : Names :=
  ⟨(ts.map FunctionText.name).zipIdx, t.labels⟩

/-- A label is defined in a function, after `n` of its instruction lines. -/
def FunctionText.Defines (t : FunctionText) (name : String) (n : Nat) : Prop :=
  ∃ before after, t.body = before ++ [word (name ++ ":")] :: after ∧ name ≠ "" ∧ n = (before.filter isStatement).length

/-- The text of a function stands for a function of a program. -/
structure FunctionText.Means (ts : List FunctionText) (t : FunctionText) (f : FunctionDef) : Prop where
  name : f.name = t.name
  params : unsigned? t.params = some f.params
  code : List.Forall₂ (fun line i => statement (t.names ts) line = .ok i) t.statements f.code.toList

/-! ## Looking names up -/

/-- In a list of pairs whose keys are distinct, looking up is membership. -/
theorem lookup_eq_some_iff_mem {β : Type} {l : List (String × β)} (h : (l.map Prod.fst).Nodup) {k : String} {v : β} :
    l.lookup k = some v ↔ (k, v) ∈ l := by
  induction l with
  | nil => simp
  | cons p l ih =>
    obtain ⟨k', v'⟩ := p
    obtain ⟨fresh, nodup⟩ := List.nodup_cons.1 h
    rw [List.lookup_cons, List.mem_cons]
    by_cases same : k = k'
    · subst same
      have absent : (k, v) ∉ l := fun mem => fresh (List.mem_map.2 ⟨_, mem, rfl⟩)
      simp [absent, eq_comm]
    · rw [beq_eq_false_iff_ne.2 same]
      simp [same, ih nodup]

/-- A label stands for the number of instruction lines before its definition. -/
theorem lookup_labels (h : t.Sound) {name : String} {n : Nat} : t.labels.lookup name = some n ↔ t.Defines name n := by
  rw [lookup_eq_some_iff_mem h.labels, FunctionText.labels, mem_labelsFrom]
  simp only [definedLabel?_eq_some, Nat.zero_add]
  constructor
  · rintro ⟨before, _, after, body, ⟨rfl, ne⟩, position⟩
    exact ⟨before, after, body, ne, position⟩
  · rintro ⟨before, after, body, ne, position⟩
    exact ⟨before, _, after, body, ⟨rfl, ne⟩, position⟩

/-- The name of a function stands for its position. -/
theorem lookup_functions (h : (ts.map FunctionText.name).Nodup) {name : String} {k : Nat} :
    (ts.map FunctionText.name).zipIdx.lookup name = some k ↔ ∃ t, ts[k]? = some t ∧ t.name = name := by
  have keys : ((ts.map FunctionText.name).zipIdx.map Prod.fst).Nodup := by rwa [List.zipIdx_map_fst]
  rw [lookup_eq_some_iff_mem keys, List.mem_zipIdx_iff_getElem?, List.getElem?_map, Option.map_eq_some_iff]

/-! ## Assembling -/

/-- A block is assembled line by line. -/
theorem assemble_block_eq (functions : List (String × Nat)) (b : Block) : b.assemble functions = (do
    let code ← b.lines.toList.mapM fun line => atLine line.number (statement ⟨functions, b.labels⟩ line.tokens)
    return ⟨b.name, b.params, code.toArray⟩) := by
  rw [Block.assemble, Array.mapM_eq_mapM_toList]
  simp

/-- A text is assembled block by block. -/
theorem assemble_eq (source : String) : assemble source = (do
    let bs ← blocks source
    let functions ← bs.mapM fun b => do
      let code ← b.lines.toList.mapM fun line =>
        atLine line.number (statement ⟨functionNames bs, b.labels⟩ line.tokens)
      return ⟨b.name, b.params, code.toArray⟩
    return ⟨functions.toArray⟩) := by
  unfold assemble
  simp only [funext (assemble_block_eq _)]

theorem assemble_block_ok {functions : List (String × Nat)} {b : Block} {f : FunctionDef} :
    b.assemble functions = .ok f ↔ f.name = b.name ∧ f.params = b.params ∧
      List.Forall₂ (fun line i => statement ⟨functions, b.labels⟩ line.tokens = .ok i) b.lines.toList f.code.toList := by
  obtain ⟨name, params, code⟩ := f
  have each : List.Forall₂ (fun line i => statement ⟨functions, b.labels⟩ line.tokens = .ok i) b.lines.toList code.toList ↔
      b.lines.toList.mapM (fun line => atLine line.number (statement ⟨functions, b.labels⟩ line.tokens)) =
        .ok code.toList := by
    simp only [mapM_eq_ok_iff, atLine_ok]
  rw [each, assemble_block_eq]
  cases b.lines.toList.mapM fun line => atLine line.number (statement ⟨functions, b.labels⟩ line.tokens) with
  | error e => exact ⟨nofun, fun ⟨_, _, h⟩ => nomatch h⟩
  | ok is =>
    constructor
    · rintro ⟨⟩
      exact ⟨rfl, rfl, rfl⟩
    · rintro ⟨rfl, rfl, h⟩
      cases h; rfl

theorem functionNames_eq {bs : List Block} (h : List.Forall₂ Block.Reads bs ts) :
    functionNames bs = (ts.map FunctionText.name).zipIdx := by
  rw [← names_of_reads h, List.zipIdx_map]; rfl

theorem means_iff {b : Block} {f : FunctionDef} (h : b.Reads t) :
    b.assemble (ts.map FunctionText.name).zipIdx = .ok f ↔ t.Means ts f := by
  have code : List.Forall₂ (fun line i => statement (t.names ts) line = .ok i) t.statements f.code.toList ↔
      List.Forall₂ (fun line i => statement ⟨(ts.map FunctionText.name).zipIdx, b.labels⟩ line.tokens = .ok i)
        b.lines.toList f.code.toList := by
    rw [← h.lines, List.forall₂_map_left_iff, FunctionText.names, h.labels]
  rw [assemble_block_ok, ← code, h.name]
  constructor
  · rintro ⟨name, params, code⟩
    exact ⟨name, params ▸ h.params, code⟩
  · rintro ⟨name, params, code⟩
    exact ⟨name, Option.some.inj (params.symm.trans h.params), code⟩

theorem means_functions {bs : List Block} (h : List.Forall₂ Block.Reads bs ts) {us : List FunctionText}
    {fs : List FunctionDef} : bs.mapM (Block.assemble (us.map FunctionText.name).zipIdx) = .ok fs ↔
      List.Forall₂ (FunctionText.Means us) ts fs := by
  rw [mapM_eq_ok_iff]
  induction h generalizing fs with
  | nil => rw [List.forall₂_nil_left_iff, List.forall₂_nil_left_iff]
  | cons reads _ ih => simp only [List.forall₂_cons_left_iff, means_iff reads, ih]

theorem assemble_of_blocks {source : String} {p : Program} {bs : List Block} (read : blocks source = .ok bs)
    (h : List.Forall₂ Block.Reads bs ts) :
    assemble source = .ok p ↔ List.Forall₂ (FunctionText.Means ts) ts p.functions.toList := by
  obtain ⟨functions⟩ := p
  rw [← means_functions h, assemble, read]
  show (bs.mapM (Block.assemble (functionNames bs)) >>= _) = _ ↔ _
  rw [functionNames_eq h]
  cases bs.mapM (Block.assemble (ts.map FunctionText.name).zipIdx) with
  | error e => exact ⟨nofun, nofun⟩
  | ok fs =>
    constructor
    · rintro ⟨⟩; rfl
    · rintro ⟨⟩; rfl

theorem assemble_of_layout {source : String} {p : Program} (layout : Layout source ts) :
    assemble source = .ok p ↔ List.Forall₂ (FunctionText.Means ts) ts p.functions.toList := by
  obtain ⟨bs, read, reads⟩ := blocks_of_layout layout
  exact assemble_of_blocks read reads

/-- A text assembles to the program that its layout says. -/
theorem assemble_ok_iff {source : String} {p : Program} : assemble source = .ok p ↔
    ∃ ts, Layout source ts ∧ List.Forall₂ (FunctionText.Means ts) ts p.functions.toList := by
  constructor
  · intro h
    cases read : blocks source with
    | error e => rw [assemble, read] at h; cases h
    | ok bs =>
      obtain ⟨ts, layout, reads⟩ := layout_of_blocks read
      exact ⟨ts, layout, (assemble_of_blocks read reads).1 h⟩
  · rintro ⟨ts, layout, means⟩
    exact (assemble_of_layout layout).2 means

/-! ## Texts without labels -/

/-- A line that stands for an instruction is no head, no end and no label. -/
theorem inside_of_statement {names : Names} {line : List Token} {i : Instruction} (h : statement names line = .ok i) :
    Inside line ∧ isStatement line = true := by
  have reserved : ∀ m ∈ forms.map Prod.fst, m ≠ "fn" ∧ m ≠ "end" ∧ labelOf? m = none := by decide
  obtain ⟨mnemonic, form, operands, rfl, known, -⟩ := statement_ok h
  obtain ⟨not_fn, not_end, no_label⟩ := reserved mnemonic (mem_mnemonics known)
  refine ⟨⟨List.cons_ne_nil _ _, ?_, ?_⟩, ?_⟩
  · rintro operands' ⟨⟩
    exact not_fn rfl
  · rintro ⟨⟩
    exact not_end rfl
  · cases operands with
    | nil => simp [isStatement, definedLabel?, word, no_label]
    | cons t rest => simp [isStatement, definedLabel?]

/-- The text of a function whose lines are all instructions stands for a function of a program. -/
structure FunctionText.Spells (ts : List FunctionText) (t : FunctionText) (f : FunctionDef) : Prop where
  name : f.name = t.name
  params : unsigned? t.params = some f.params
  code : List.Forall₂ (fun line i => statement ⟨(ts.map FunctionText.name).zipIdx, []⟩ line = .ok i) t.body f.code.toList

theorem labelsFrom_of_statements {n : Nat} {body : List (List Token)} (h : ∀ line ∈ body, isStatement line = true) :
    labelsFrom n body = [] := by
  induction body generalizing n with
  | nil => rfl
  | cons line body ih =>
    obtain ⟨hline, hbody⟩ := List.forall_mem_cons.1 h
    rw [labelsFrom, Option.isNone_iff_eq_none.1 hline]
    exact ih hbody

namespace FunctionText.Spells

variable {f : FunctionDef}

theorem inside (h : t.Spells ts f) : ∀ line ∈ t.body, Inside line ∧ isStatement line = true := by
  intro line mem
  obtain ⟨i, -, made⟩ := exists_of_forall₂ h.code line mem
  exact inside_of_statement made

theorem labels (h : t.Spells ts f) : t.labels = [] := labelsFrom_of_statements fun line mem => (h.inside line mem).2

theorem sound (h : t.Spells ts f) : t.Sound where
  inside line mem := (h.inside line mem).1
  labels := h.labels ▸ List.nodup_nil

theorem means (h : t.Spells ts f) : t.Means ts f where
  name := h.name
  params := h.params
  code := by
    have statements : t.statements = t.body := List.filter_eq_self.2 fun line mem => (h.inside line mem).2
    rw [statements, names, h.labels]
    exact h.code

end FunctionText.Spells

section
variable {p : Program} (nonempty : ts ≠ []) (names : (ts.map FunctionText.name).Nodup)
  (spells : List.Forall₂ (FunctionText.Spells ts) ts p.functions.toList)
include nonempty names spells

/-- Lines that are heads, instructions and ends assemble to the program that they spell. -/
theorem assemble_of_spells {source : String} {ls : List (List Token)} (read : tokenLines source = .ok ls)
    (lines : ls.filter (!·.isEmpty) = ts.flatMap FunctionText.lines) : assemble source = .ok p := by
  have layout : Layout source ts := by
    refine ⟨⟨ls, read, lines⟩, nonempty, names, fun t mem => ?_, fun t mem => ?_⟩
    · obtain ⟨f, -, hf⟩ := exists_of_forall₂ spells t mem
      exact hf.params ▸ rfl
    · obtain ⟨f, -, hf⟩ := exists_of_forall₂ spells t mem
      exact hf.sound
  exact (assemble_of_layout layout).2 (spells.imp fun t f h => h.means)

/-- So does the text of such lines. -/
theorem assemble_spellLines (writable : ∀ t ∈ ts, ∀ line ∈ t.lines, ∀ token ∈ line, token.Writable) :
    assemble (spellLines (ts.flatMap FunctionText.lines)) = .ok p := by
  have read : tokenLines (spellLines (ts.flatMap FunctionText.lines)) = .ok (ts.flatMap FunctionText.lines) := by
    refine tokenLines_spellLines fun line mem => ?_
    obtain ⟨t, ht, mem⟩ := List.mem_flatMap.1 mem
    exact writable t ht line mem
  refine assemble_of_spells nonempty names spells read (List.filter_eq_self.2 fun line mem => ?_)
  obtain ⟨t, ht, mem⟩ := List.mem_flatMap.1 mem
  obtain ⟨f, -, hf⟩ := exists_of_forall₂ spells t ht
  have ne_nil : line ≠ [] := by
    rcases List.mem_append.1 mem with mem | mem
    · rcases List.mem_cons.1 mem with rfl | mem
      · exact List.cons_ne_nil _ _
      · exact (hf.inside line mem).1.ne_nil
    · rw [List.mem_singleton.1 mem]
      exact List.cons_ne_nil _ _
  simpa using ne_nil

end

end SlotVM.Assembly
