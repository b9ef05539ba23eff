/-
The instructions of a text, in its order, and the functions that they belong to. `blockLines_blocks`: those of the blocks
are those of the lines, with the number of heads before each. `first_fault`: where a text is read but does not assemble,
the error is that of the first instruction that stands for nothing.
-/
import SlotVM.Proofs.Assembly.Assembles
import SlotVM.Proofs.Assembly.Refusal

namespace SlotVM.Assembly

open Text

/-- Whether a line is an instruction of a function. -/
def isInstruction (line : List Token) : Bool :=
  !line.isEmpty && !isHead line && line != [word "end"] && isStatement line

/-- The instructions among lines, each with the number of heads before it and `heads` more. -/
def instructionsFrom (heads : Nat) : List Line → List (Nat × Line)
  | [] => []
  | line :: rest => (if isInstruction line.tokens then [(heads, line)] else []) ++
      instructionsFrom (heads + if isHead line.tokens then 1 else 0) rest

/-- The instructions of blocks, each with the number of its block. Blocks are counted from 1. -/
def blockLines (bs : List Block) : List (Nat × Line) := (bs.zipIdx 1).flatMap fun b => b.1.lines.toList.map (b.2, ·)

/-- The blocks that have been read, the open one in the end. -/
def Progress.blocks (p : Progress) : List Block := p.closed.reverse ++ p.current.toList

/-- An instruction of a block stands for something, with the functions and the labels of the block. -/
def Makes (bs : List Block) (x : Nat × Line) : Prop :=
  ∃ k b i, x.1 = k + 1 ∧ bs[k]? = some b ∧ statement ⟨functionNames bs, b.labels⟩ x.2.tokens = .ok i

variable {line : List Token} {p q : Progress} {bs : List Block}

/-! ## Instructions among lines -/

theorem isInstruction_iff : isInstruction line = true ↔ Inside line ∧ isStatement line = true := by
  constructor
  · intro h
    simp only [isInstruction, Bool.and_eq_true, Bool.not_eq_true', bne_iff_ne, ne_eq, List.isEmpty_eq_false_iff] at h
    obtain ⟨⟨⟨filled, head⟩, finish⟩, statement⟩ := h
    refine ⟨⟨filled, fun operands heads => ?_, finish⟩, statement⟩
    rw [isHead_iff.2 ⟨operands, heads⟩] at head
    cases head
  · rintro ⟨inside, statement⟩
    simp [isInstruction, inside.ne_nil, inside.not_isHead, inside.not_end, statement]

theorem instructionsFrom_append (heads : Nat) (ls ls' : List Line) : instructionsFrom heads (ls ++ ls') =
    instructionsFrom heads ls ++ instructionsFrom (heads + ls.countP (isHead ·.tokens)) ls' := by
  induction ls generalizing heads with
  | nil => rfl
  | cons line ls ih =>
    rw [List.cons_append, instructionsFrom, instructionsFrom, ih, List.countP_cons, List.append_assoc, Nat.add_assoc,
      Nat.add_comm (ls.countP _)]

/-- Where an instruction stands. -/
theorem instructionsFrom_split {heads k : Nat} {ls : List Line} {xs ys : List (Nat × Line)} {l : Line}
    (h : instructionsFrom heads ls = xs ++ (k, l) :: ys) : ∃ before after, ls = before ++ l :: after ∧
      instructionsFrom heads before = xs ∧ k = heads + before.countP (isHead ·.tokens) ∧
      isInstruction l.tokens = true := by
  induction ls generalizing heads xs with
  | nil => simp [instructionsFrom] at h
  | cons line ls ih =>
    rw [instructionsFrom] at h
    by_cases instruction : isInstruction line.tokens = true
    · have head : isHead line.tokens = false := (isInstruction_iff.1 instruction).1.not_isHead
      rw [if_pos instruction, head] at h
      cases xs with
      | nil =>
        cases h
        exact ⟨[], ls, rfl, rfl, rfl, instruction⟩
      | cons x xs =>
        obtain ⟨rfl, rest⟩ := List.cons.inj h
        obtain ⟨before, after, rfl, rfl, rfl, here⟩ := ih rest
        refine ⟨line :: before, after, rfl, ?_, ?_, here⟩
        · simp [instructionsFrom, instruction, head]
        · simp [head]
    · rw [if_neg instruction, List.nil_append] at h
      obtain ⟨before, after, rfl, rfl, rfl, here⟩ := ih h
      refine ⟨line :: before, after, rfl, ?_, ?_, here⟩
      · rw [instructionsFrom, if_neg instruction, List.nil_append]
      · rw [List.countP_cons]
        omega

/-- An instruction is among those of its lines, with the number of heads before it. -/
theorem mem_instructionsFrom {before after : List Line} {l : Line} (h : isInstruction l.tokens = true) :
    (before.countP (isHead ·.tokens), l) ∈ instructionsFrom 0 (before ++ l :: after) := by
  rw [instructionsFrom_append, instructionsFrom, if_pos h, Nat.zero_add]
  exact List.mem_append_right _ (List.mem_append_left _ (List.mem_singleton_self _))

/-! ## Instructions of blocks -/

theorem blockLines_concat (bs : List Block) (b : Block) :
    blockLines (bs ++ [b]) = blockLines bs ++ b.lines.toList.map (bs.length + 1, ·) := by
  simp [blockLines, List.zipIdx_append, Nat.add_comm]

namespace Progress

/-- A line that is taken in goes to the block of the last head, if it is an instruction. -/
theorem blockLines_addTokens {line : Line} (h : p.addTokens line = .ok q) :
    blockLines q.blocks = blockLines p.blocks ++ instructionsFrom p.blocks.length [line] ∧
      q.blocks.length = p.blocks.length + if isHead line.tokens then 1 else 0 := by
  obtain ⟨n, line⟩ := line
  obtain ⟨closed, current⟩ := p
  rcases lineForm_cases line with rfl | ⟨operands, rfl⟩ | rfl | inside
  · cases h
    simp [instructionsFrom, isInstruction, isHead]
  · obtain ⟨rfl, name, params, count, rfl, -, -, rfl⟩ := openBlock_ok h
    simp [blocks, blockLines_concat, instructionsFrom, isInstruction, isHead]
  · cases current with
    | none => cases h
    | some b =>
      cases h
      simp [blocks, instructionsFrom, isInstruction, isHead, word]
  · cases current with
    | none =>
      rw [addTokens_outside (.inl inside) rfl] at h
      cases h
    | some b =>
      rw [addTokens_inside inside rfl] at h
      cases defined : definedLabel? line with
      | none =>
        rw [defined] at h
        cases h
        have instruction : isInstruction line = true := isInstruction_iff.2 ⟨inside, by rw [isStatement, defined]; rfl⟩
        simp [blocks, blockLines_concat, instructionsFrom, instruction, inside.not_isHead]
      | some name =>
        rw [defined] at h
        dsimp only at h
        split at h
        · cases h
        · cases h
          simp [blocks, blockLines_concat, instructionsFrom, isInstruction, isStatement, defined, inside.not_isHead]

theorem blockLines_foldlM {ls : List Line} (h : ls.foldlM addTokens p = .ok q) :
    blockLines q.blocks = blockLines p.blocks ++ instructionsFrom p.blocks.length ls := by
  induction ls generalizing p with
  | nil =>
    cases h
    exact (List.append_nil _).symm
  | cons line ls ih =>
    rw [List.foldlM_cons] at h
    obtain ⟨p', taken, h⟩ := bind_ok.1 h
    obtain ⟨here, length⟩ := blockLines_addTokens taken
    rw [ih h, here, length, List.append_assoc]
    simp [instructionsFrom]

end Progress

/-- The instructions of a text are those of its blocks, in the same order. -/
theorem blockLines_blocks {source : String} (read : blocks source = .ok bs) :
    ∃ ls, List.Forall₂ Tokenized ((lines source.toList).zipIdx 1) ls ∧ blockLines bs = instructionsFrom 0 ls := by
  unfold blocks at read
  obtain ⟨p, added, finished⟩ := bind_ok.1 read
  obtain ⟨ls, tokenized⟩ := tokenized_of_addLines added
  rw [addLines_eq tokenized] at added
  refine ⟨ls, tokenized, ?_⟩
  have run := Progress.blockLines_foldlM added
  obtain ⟨closed, _ | block⟩ := p
  · have whole : bs = closed.reverse := by
      cases closed <;> cases finished
      rfl
    simpa [Progress.blocks, whole, blockLines] using run
  · cases finished

theorem mem_blockLines {k : Nat} {l : Line} (h : (k, l) ∈ blockLines bs) :
    ∃ j b, k = j + 1 ∧ bs[j]? = some b ∧ l ∈ b.lines.toList := by
  obtain ⟨⟨b, k⟩, mem, here⟩ := List.mem_flatMap.1 h
  obtain ⟨l, hl, ⟨⟩⟩ := List.mem_map.1 here
  obtain ⟨positive, here⟩ := List.mem_zipIdx_iff_le_and_getElem?_sub.1 mem
  exact ⟨k - 1, b, by omega, here, hl⟩

/-! ## Instructions that stand for nothing -/

theorem makes_iff {k : Nat} {b : Block} (here : bs[k]? = some b) {l : Line} :
    Makes bs (k + 1, l) ↔ ∃ i, statement ⟨functionNames bs, b.labels⟩ l.tokens = .ok i := by
  constructor
  · rintro ⟨k', b', i, position, here', made⟩
    obtain rfl : k = k' := Nat.succ.inj position
    cases here.symm.trans here'
    exact ⟨i, made⟩
  · rintro ⟨i, made⟩
    exact ⟨k, b, i, rfl, here, made⟩

theorem statements_of_ok {functions : List (String × Nat)} {b : Block} {f : FunctionDef} (h : b.assemble functions = .ok f) :
    ∀ l ∈ b.lines.toList, ∃ i, statement ⟨functions, b.labels⟩ l.tokens = .ok i := by
  intro l mem
  obtain ⟨i, -, made⟩ := exists_of_forall₂ (assemble_block_ok.1 h).2.2 l mem
  exact ⟨i, made⟩

/-- Where all blocks are assembled, all instructions stand for something. -/
theorem makes_of_ok {fs : List FunctionDef} (h : bs.mapM (Block.assemble (functionNames bs)) = .ok fs) :
    ∀ x ∈ blockLines bs, Makes bs x := by
  rintro ⟨k, l⟩ mem
  obtain ⟨j, b, rfl, here, hl⟩ := mem_blockLines mem
  obtain ⟨f, -, ok⟩ := exists_of_forall₂ (mapM_eq_ok_iff.1 h) b (List.mem_of_getElem? here)
  exact (makes_iff here).2 (statements_of_ok ok l hl)

/-- Where blocks are not assembled, the first instruction that stands for nothing is found. -/
theorem first_fault {e : AssemblyError} (h : bs.mapM (Block.assemble (functionNames bs)) = .error e) :
    ∃ xs x ys error, blockLines bs = xs ++ x :: ys ∧ (∀ y ∈ xs, Makes bs y) ∧ ¬ Makes bs x ∧
      e = ⟨some x.2.number, error⟩ := by
  obtain ⟨before, b, after, split, earlier, fault⟩ := mapM_eq_error h
  rw [assemble_block_eq] at fault
  rcases bind_error.1 fault with fault | ⟨_, -, fault⟩
  case inr => cases fault
  obtain ⟨ls, l, ls', lines, made, fault⟩ := mapM_eq_error fault
  have here : bs[before.length]? = some b := by simp [split]
  have blocks : blockLines bs = (blockLines before ++ ls.map (before.length + 1, ·)) ++ (before.length + 1, l) ::
      (ls'.map (before.length + 1, ·) ++ (after.zipIdx (before.length + 2)).flatMap fun b =>
        b.1.lines.toList.map (b.2, ·)) := by
    rw [split]
    simp [blockLines, List.zipIdx_append, lines, Nat.add_comm 1, Nat.add_assoc]
  have makes : ∀ x ∈ blockLines before ++ ls.map (before.length + 1, ·), Makes bs x := by
    rintro ⟨k, l'⟩ mem
    rcases List.mem_append.1 mem with mem | mem
    · obtain ⟨j, b', rfl, here', hl'⟩ := mem_blockLines mem
      obtain ⟨f, ok⟩ := earlier b' (List.mem_of_getElem? here')
      have reach : bs[j]? = some b' := by
        rw [split, List.getElem?_append_left (List.getElem?_eq_some_iff.1 here').1, here']
      exact (makes_iff reach).2 (statements_of_ok ok l' hl')
    · obtain ⟨_, hl', ⟨⟩⟩ := List.mem_map.1 mem
      obtain ⟨i, ok⟩ := made l' hl'
      exact (makes_iff here).2 ⟨i, atLine_ok.1 ok⟩
  cases result : statement ⟨functionNames bs, b.labels⟩ l.tokens with
  | ok i => rw [result] at fault; cases fault
  | error error =>
    have nothing : ¬ Makes bs (before.length + 1, l) := by
      rw [makes_iff here]
      rintro ⟨i, made⟩
      cases result.symm.trans made
    rw [result] at fault
    cases fault
    exact ⟨_, (before.length + 1, l), _, error, blocks, makes, nothing, rfl⟩

end SlotVM.Assembly
