/-
Errors of texts that do not assemble. `error_cites_line`: a text assembles if it is not cut short and no line of it is
wrong. Else the message of the error begins with the number of the first line that is refused, or where none is, of the
first instruction that stands for nothing. Only the messages for literals in the head of a function give no line.
-/
import SlotVM.Proofs.Assembly.Instructions

namespace SlotVM.Assembly

open Text

/-! ## Lines by their numbers -/

/-- The line with the number `n` has the tokens `line`, and the lines before it have the tokens `before`. Lines are
counted from 1. -/
def LineAt (cs : List (List Char)) (n : Nat) (before : List (List Token)) (line : List Token) : Prop :=
  ∃ texts text rest, cs = texts ++ text :: rest ∧ n = texts.length + 1 ∧ List.Forall₂ LineSpelling before texts ∧
    LineSpelling line text

/-- The line with the number `n` cannot be read: it is no spelling of tokens, or it is misplaced or malformed. -/
inductive Unread (cs : List (List Char)) : Nat → Prop
  | unspelled {texts : List (List Char)} {text : List Char} {rest : List (List Char)} (here : cs = texts ++ text :: rest)
      (none : ∀ line, ¬ LineSpelling line text) : Unread cs (texts.length + 1)
  | refused {n : Nat} {before : List (List Token)} {line : List Token} (here : LineAt cs n before line)
      (refused : Refused (before.filter (!·.isEmpty)) line) : Unread cs n

/-- The line with the number `n` is an instruction that stands for nothing, with the functions `ts` and the labels of
its own function. That is the one whose head is the last before the line. -/
def Unparsed (cs : List (List Char)) (ts : List FunctionText) (n : Nat) : Prop :=
  ∃ before line k t, LineAt cs n before line ∧ Inside line ∧ isStatement line = true ∧ before.countP isHead = k + 1 ∧
    ts[k]? = some t ∧ ∀ i, statement (t.names ts) line ≠ .ok i

/-- The line with the number `n` is a head with a literal where a word has to stand. -/
def LiteralHeadAt (cs : List (List Char)) (n : Nat) : Prop :=
  ∃ before line, LineAt cs n before line ∧ LiteralHead (before.filter (!·.isEmpty)) line

/-- The line that is the first one wrong: the first that cannot be read, or where all can, the first instruction that
stands for nothing. -/
inductive Offends (source : String) (n : Nat) : Prop
  | unread (here : Unread (lines source.toList) n) (first : ∀ m < n, ¬ Unread (lines source.toList) m)
  | unparsed {ts : List FunctionText} (readable : ∀ m, ¬ Unread (lines source.toList) m) (layout : Layout source ts)
      (here : Unparsed (lines source.toList) ts n) (first : ∀ m < n, ¬ Unparsed (lines source.toList) ts m)

/-- All lines can be read, but the text ends inside of a function, or it has none. -/
structure Truncated (source : String) : Prop where
  readable : ∀ m, ¬ Unread (lines source.toList) m
  ends : ∃ ls, List.Forall₂ LineSpelling ls (lines source.toList) ∧
    ((∃ body, OpenWith (ls.filter (!·.isEmpty)) body) ∨ ∀ line ∈ ls, isHead line = false)

/-- The message begins with the number of a line. -/
def AssemblyError.Cites (e : AssemblyError) (n : Nat) : Prop := ∃ text : String, e.message = s!"line {n}: {text}"

variable {cs texts : List (List Char)} {n : Nat} {before : List (List Token)} {line : List Token} {p q : Progress}
  {e : AssemblyError}

/-! ### Spellings of lines -/

theorem spelled_iff {ls : List (List Token)} : List.Forall₂ LineSpelling ls cs ↔ cs.mapM tokenize = .ok ls := by
  rw [mapM_eq_ok_iff]
  exact ⟨fun h => .flip (h.imp fun _ _ => tokenize_eq_ok.2), fun h => .flip (h.imp fun _ _ => tokenize_eq_ok.1)⟩

theorem spelled_unique {ls ls' : List (List Token)} (h : List.Forall₂ LineSpelling ls cs)
    (h' : List.Forall₂ LineSpelling ls' cs) : ls = ls' :=
  Except.ok.inj ((spelled_iff.1 h).symm.trans (spelled_iff.1 h'))

theorem LineSpelling.unique {line' : List Token} {text : List Char} (h : LineSpelling line text)
    (h' : LineSpelling line' text) : line = line' :=
  Except.ok.inj ((tokenize_eq_ok.2 h).symm.trans (tokenize_eq_ok.2 h'))

/-- Of two lines of a list the one with the smaller number is among those before the other. -/
theorem split_before {α : Type} {xs xs' ys ys' : List α} {x x' : α} (h : xs ++ x :: ys = xs' ++ x' :: ys')
    (lt : xs.length < xs'.length) : ∃ more, xs' = xs ++ x :: more := by
  obtain ⟨more, rfl, tail⟩ | ⟨more, rfl, -⟩ := List.append_eq_append_iff.1 h
  · cases more with
    | nil => simp at lt
    | cons _ more => cases tail; exact ⟨more, rfl⟩
  · rw [List.length_append] at lt
    omega

theorem split_unique {α : Type} {xs xs' ys ys' : List α} {x x' : α} (h : xs ++ x :: ys = xs' ++ x' :: ys')
    (length : xs.length = xs'.length) : xs = xs' ∧ x = x' ∧ ys = ys' := by
  obtain ⟨rfl, tail⟩ := List.append_inj h length
  cases tail
  exact ⟨rfl, rfl, rfl⟩

theorem LineAt.unique {before' : List (List Token)} {line' : List Token} (h : LineAt cs n before line)
    (h' : LineAt cs n before' line') : before = before' ∧ line = line' := by
  obtain ⟨texts, text, rest, rfl, rfl, spelled, here⟩ := h
  obtain ⟨texts', text', rest', split, length, spelled', here'⟩ := h'
  obtain ⟨rfl, rfl, -⟩ := split_unique split (by omega)
  exact ⟨spelled_unique spelled spelled', here.unique here'⟩

/-- A line is a line of all beginnings of the text that reach it. -/
theorem LineAt.of_append {rest : List (List Char)} (h : LineAt (texts ++ rest) n before line) (le : n ≤ texts.length) :
    LineAt texts n before line := by
  obtain ⟨texts', text, rest', split, rfl, spelled, here⟩ := h
  cases rest with
  | nil => exact ⟨texts', text, rest', by rwa [List.append_nil] at split, rfl, spelled, here⟩
  | cons text' rest =>
    obtain ⟨more, rfl⟩ := split_before split.symm (by omega)
    exact ⟨texts', text, more, rfl, rfl, spelled, here⟩

theorem Unread.of_append {rest : List (List Char)} (h : Unread (texts ++ rest) n) (le : n ≤ texts.length) :
    Unread texts n := by
  cases h with
  | refused here refused => exact .refused (here.of_append le) refused
  | @unspelled texts' text rest' split none =>
    cases rest with
    | nil => exact .unspelled (by rwa [List.append_nil] at split) none
    | cons text' rest =>
      obtain ⟨more, rfl⟩ := split_before split.symm (by omega)
      exact .unspelled rfl none

/-! ## Reading the lines -/

theorem addLines_append (p : Progress) (ls ls' : List (List Char × Nat)) :
    p.addLines (ls ++ ls') = p.addLines ls >>= fun q => q.addLines ls' := by
  induction ls generalizing p with
  | nil => rfl
  | cons line ls ih =>
    rw [List.cons_append, Progress.addLines, Progress.addLines, bind_assoc]
    exact bind_congr fun q => ih q

/-- The line that is not taken in. -/
theorem addLines_error (h : p.addLines (cs.zipIdx n) = .error e) : ∃ texts text rest q, cs = texts ++ text :: rest ∧
    p.addLines (texts.zipIdx n) = .ok q ∧ q.addLine (n + texts.length) text = .error e := by
  induction cs generalizing p n with
  | nil => cases h
  | cons text cs ih =>
    rw [List.zipIdx_cons, Progress.addLines] at h
    rcases bind_error.1 h with here | ⟨q, taken, h⟩
    · exact ⟨[], text, cs, p, rfl, rfl, here⟩
    · obtain ⟨texts, text', rest, r, rfl, read, here⟩ := ih h
      refine ⟨text :: texts, text', rest, r, rfl, ?_, ?_⟩
      · rw [List.zipIdx_cons, Progress.addLines, taken]
        exact read
      · rw [List.length_cons, Nat.add_comm texts.length, ← Nat.add_assoc]
        exact here

/-- Lines that are taken in are spellings, and are those of the functions that have been read. -/
theorem reads_of_addLines (h : Progress.addLines ⟨[], none⟩ (cs.zipIdx 1) = .ok p) : ∃ ls ts o,
    List.Forall₂ LineSpelling ls cs ∧ p.Reads ts o ∧ linesRead ts o = ls.filter (!·.isEmpty) := by
  obtain ⟨numbered, tokenized⟩ := tokenized_of_addLines h
  rw [addLines_eq tokenized] at h
  obtain ⟨ts, o, reads, filled⟩ := Progress.Reads.empty.foldlM h
  refine ⟨numbered.map Line.tokens, ts, o, spelled_iff.2 (tokenized_iff.2 ⟨numbered, tokenized, rfl⟩), reads, ?_⟩
  simpa [linesRead, Assembly.filled] using filled

/-- A line is taken in if and only if it is a spelling and is not refused. -/
theorem addLine_verdict (read : Progress.addLines ⟨[], none⟩ (texts.zipIdx 1) = .ok p) {text : List Char}
    (spelled : LineSpelling line text) (n : Nat) : ∃ before, List.Forall₂ LineSpelling before texts ∧
      Verdict (before.filter (!·.isEmpty)) n line (p.addLine n text) := by
  obtain ⟨before, ts, o, spelled', reads, filled⟩ := reads_of_addLines read
  refine ⟨before, spelled', ?_⟩
  have verdict := reads.verdict n line
  rwa [Progress.addLine_eq, tokenize_eq_ok.2 spelled, ← filled]

/-- Where all lines are taken in, all can be read. -/
theorem not_unread_of_ok (h : Progress.addLines ⟨[], none⟩ (cs.zipIdx 1) = .ok p) (n : Nat) : ¬ Unread cs n := by
  intro unread
  cases unread with
  | unspelled here none =>
    obtain ⟨ls, -, -, spelled, -⟩ := reads_of_addLines h
    subst here
    obtain ⟨line, -, here⟩ := exists_of_forall₂ spelled.flip _ (List.mem_append_right _ (List.mem_cons_self ..))
    exact none line here
  | @refused _ before line here refused =>
    obtain ⟨texts, text, rest, rfl, rfl, spelled, here⟩ := here
    rw [List.zipIdx_append, addLines_append] at h
    obtain ⟨p', read, h⟩ := bind_ok.1 h
    rw [List.zipIdx_cons, Progress.addLines] at h
    obtain ⟨p'', taken, -⟩ := bind_ok.1 h
    obtain ⟨before', spelled', verdict⟩ := addLine_verdict read here (1 + texts.length)
    cases spelled_unique spelled spelled'
    rw [taken] at verdict
    cases verdict with
    | taken fits => exact fits refused

/-! ### The first line that is refused -/

theorem cites_some (n : Nat) (error : SyntaxError) : AssemblyError.Cites ⟨some n, error⟩ n :=
  ⟨error.message, by simp only [AssemblyError.message]⟩

theorem not_cites_literal (text : String) (n : Nat) : ¬ AssemblyError.Cites ⟨none, .unexpectedLiteral text⟩ n := by
  rintro ⟨rest, same⟩
  have message : AssemblyError.message ⟨none, .unexpectedLiteral text⟩ = s!"Unexpected literal `{text}`" := rfl
  have first := congrArg (fun s : String => s.toList.head?) (message.symm.trans same)
  have left : (toString "Unexpected literal `").toList.head? = some 'U' := rfl
  have right : (toString "line ").toList.head? = some 'l' := rfl
  simp [left, right] at first

theorem LiteralHeadAt.unread (h : LiteralHeadAt cs n) : Unread cs n := by
  obtain ⟨before, line, here, literal⟩ := h
  exact .refused here literal.refused

/-- If lines are not taken in, the first that cannot be read is found. -/
theorem unread_of_error (h : Progress.addLines ⟨[], none⟩ (cs.zipIdx 1) = .error e) :
    ∃ n, Unread cs n ∧ (∀ m < n, ¬ Unread cs m) ∧ (e.Cites n ↔ ¬ LiteralHeadAt cs n) := by
  obtain ⟨texts, text, rest, q, rfl, read, refused⟩ := addLines_error h
  have first : ∀ m < texts.length + 1, ¬ Unread (texts ++ text :: rest) m := fun m lt unread =>
    not_unread_of_ok read m (unread.of_append (by omega))
  rw [Nat.add_comm 1] at refused
  cases tokens : tokenize text with
  | error error =>
    have none (line : List Token) : ¬ LineSpelling line text := fun spelled => by
      rw [tokenize_eq_ok.2 spelled] at tokens
      cases tokens
    have plain : ¬ LiteralHeadAt (texts ++ text :: rest) (texts.length + 1) := by
      rintro ⟨before, line, ⟨texts', text', rest', split, length, -, spelled⟩, -⟩
      obtain ⟨-, rfl, -⟩ := split_unique split (by omega)
      exact none line spelled
    rw [Progress.addLine_eq, tokens] at refused
    cases refused
    exact ⟨_, .unspelled rfl none, first, iff_of_true (cites_some _ _) plain⟩
  | ok line =>
    have spelled := tokenize_eq_ok.1 tokens
    obtain ⟨before, spelled', verdict⟩ := addLine_verdict read spelled (texts.length + 1)
    have here : LineAt (texts ++ text :: rest) (texts.length + 1) before line := ⟨texts, text, rest, rfl, rfl, spelled', spelled⟩
    rw [refused] at verdict
    cases verdict with
    | numbered misplaced plain =>
      refine ⟨_, .refused here misplaced, first, iff_of_true (cites_some _ _) ?_⟩
      rintro ⟨before', line', here', literal⟩
      obtain ⟨rfl, rfl⟩ := here.unique here'
      exact plain literal
    | unnumbered literal =>
      exact ⟨_, .refused here literal.refused, first, iff_of_false (not_cites_literal _ _) (not_not.2 ⟨_, _, here, literal⟩)⟩

/-! ## Assembling the instructions -/

/-- The lines of a text by their numbers, where all are spellings. -/
theorem lineAt_iff {ls : List Line} (h : List.Forall₂ Tokenized (cs.zipIdx 1) ls) : LineAt cs n before line ↔
    ∃ earlier l later, ls = earlier ++ l :: later ∧ n = earlier.length + 1 ∧ before = earlier.map Line.tokens ∧
      line = l.tokens := by
  have read : List.Forall₂ LineSpelling (ls.map Line.tokens) cs := spelled_iff.2 (tokenized_iff.2 ⟨ls, h, rfl⟩)
  constructor
  · rintro ⟨texts, text, rest, rfl, rfl, spelled, here⟩
    obtain ⟨before', line', rest', split, spelled', here'⟩ := forall₂_split read.flip
    obtain rfl := spelled_unique spelled spelled'.flip
    obtain rfl := here.unique here'
    obtain ⟨earlier, tail, rfl, rfl, tail_tokens⟩ := List.map_eq_append_iff.1 split
    obtain ⟨l, later, rfl, rfl, -⟩ := List.map_eq_cons_iff.1 tail_tokens
    exact ⟨earlier, l, later, rfl, by simpa using spelled.length_eq.symm, rfl, rfl⟩
  · rintro ⟨earlier, l, later, rfl, rfl, rfl, rfl⟩
    rw [List.map_append, List.map_cons] at read
    obtain ⟨texts, text, rest, split, spelled, here⟩ := forall₂_split read
    exact ⟨texts, text, rest, split, by simpa using spelled.length_eq, spelled, here⟩

theorem number_of_tokenized {earlier later : List Line} {l : Line}
    (h : List.Forall₂ Tokenized (cs.zipIdx 1) (earlier ++ l :: later)) : l.number = earlier.length + 1 := by
  obtain ⟨texts, ⟨text, number⟩, rest, split, before, -, here⟩ := forall₂_split h.flip
  have index : (cs.zipIdx 1)[texts.length]? = some (text, number) := by simp [split]
  obtain ⟨-, rfl⟩ : cs[texts.length]? = some text ∧ 1 + texts.length = number := by simpa using index
  rw [here, before.length_eq, Nat.add_comm]

section
variable {bs : List Block} {ts : List FunctionText} (reads : List.Forall₂ Block.Reads bs ts)
include reads

/-- The names that the instructions of a function may use are those of its block. -/
theorem names_eq {b : Block} {t : FunctionText} (h : b.Reads t) : t.names ts = ⟨functionNames bs, b.labels⟩ := by
  rw [functionNames_eq reads, h.labels, FunctionText.names]

/-- An instruction stands for nothing in the text if and only if it does in its block. -/
theorem unparsed_iff {ls : List Line} (tokenized : List.Forall₂ Tokenized (cs.zipIdx 1) ls)
    (filed : blockLines bs = instructionsFrom 0 ls) : Unparsed cs ts n ↔ ∃ earlier l later, ls = earlier ++ l :: later ∧
      n = earlier.length + 1 ∧ isInstruction l.tokens = true ∧ ¬ Makes bs (earlier.countP (isHead ·.tokens), l) := by
  constructor
  · rintro ⟨before, line, k, t, here, inside, statement, heads, ht, nothing⟩
    obtain ⟨earlier, l, later, split, rfl, rfl, rfl⟩ := (lineAt_iff tokenized).1 here
    refine ⟨earlier, l, later, split, rfl, isInstruction_iff.2 ⟨inside, statement⟩, ?_⟩
    obtain ⟨b, hb, read⟩ := related_of_getElem? reads.flip ht
    rw [List.countP_map] at heads
    rw [show earlier.countP (isHead ·.tokens) = k + 1 from heads, makes_iff hb, ← names_eq reads read]
    rintro ⟨i, made⟩
    exact nothing i made
  · rintro ⟨earlier, l, later, rfl, rfl, instruction, nothing⟩
    obtain ⟨k, b, heads, hb, -⟩ := mem_blockLines (filed ▸ mem_instructionsFrom instruction)
    obtain ⟨t, ht, read⟩ := related_of_getElem? reads hb
    obtain ⟨inside, statement⟩ := isInstruction_iff.1 instruction
    have here := (lineAt_iff tokenized).2 ⟨earlier, l, later, rfl, rfl, rfl, rfl⟩
    refine ⟨_, _, k, t, here, inside, statement, ?_, ht, fun i made => nothing ?_⟩
    · rw [List.countP_map]
      exact heads
    · rw [heads, makes_iff hb, ← names_eq reads read]
      exact ⟨i, made⟩

end

/-- Where a text assembles, all instructions stand for something. -/
theorem not_unparsed_of_ok {source : String} {bs : List Block} {fs : List FunctionDef} (read : blocks source = .ok bs)
    (h : bs.mapM (Block.assemble (functionNames bs)) = .ok fs) {ts : List FunctionText} (layout : Layout source ts)
    (n : Nat) : ¬ Unparsed (lines source.toList) ts n := by
  obtain ⟨bs', read', reads⟩ := blocks_of_layout layout
  cases read.symm.trans read'
  obtain ⟨ls, tokenized, filed⟩ := blockLines_blocks read
  rw [unparsed_iff reads tokenized filed]
  rintro ⟨earlier, l, later, rfl, -, instruction, nothing⟩
  exact nothing (makes_of_ok h _ (filed ▸ mem_instructionsFrom instruction))

/-- Where a text is read but does not assemble, the first instruction that stands for nothing is found. -/
theorem unparsed_of_error {source : String} {bs : List Block} (read : blocks source = .ok bs)
    (h : bs.mapM (Block.assemble (functionNames bs)) = .error e) : ∃ ts n, Layout source ts ∧
      Unparsed (lines source.toList) ts n ∧ (∀ m < n, ¬ Unparsed (lines source.toList) ts m) ∧ e.Cites n := by
  obtain ⟨ts, layout, reads⟩ := layout_of_blocks read
  obtain ⟨ls, tokenized, filed⟩ := blockLines_blocks read
  obtain ⟨xs, ⟨k, l⟩, ys, error, split, makes, nothing, rfl⟩ := first_fault h
  obtain ⟨before, after, rfl, rfl, heads, instruction⟩ := instructionsFrom_split (filed.symm.trans split)
  rw [Nat.zero_add] at heads
  subst heads
  refine ⟨ts, before.length + 1, layout, ?_, fun m lt unparsed => ?_, ?_⟩
  · exact (unparsed_iff reads tokenized filed).2 ⟨before, l, after, rfl, rfl, instruction, nothing⟩
  · obtain ⟨earlier, l', later, split, rfl, instruction', nothing'⟩ := (unparsed_iff reads tokenized filed).1 unparsed
    obtain ⟨more, rfl⟩ := split_before split.symm (by omega)
    exact nothing' (makes _ (mem_instructionsFrom instruction'))
  · rw [number_of_tokenized tokenized]
    exact cites_some _ _

/-! ## Errors -/

/-- What a text lacks, in whose lines nothing is wrong, is found when they have all been read. -/
theorem truncated_iff {source : String} (added : Progress.addLines ⟨[], none⟩ ((lines source.toList).zipIdx 1) = .ok p) :
    Truncated source ↔ ∃ e, p.finish = .error e := by
  obtain ⟨ls, ts, o, spelled, reads, filled⟩ := reads_of_addLines added
  have ends : Truncated source ↔ (∃ body, OpenWith (linesRead ts o) body) ∨ ∀ line ∈ ls, isHead line = false := by
    rw [filled]
    constructor
    · rintro ⟨-, ls', spelled', ends⟩
      cases spelled_unique spelled spelled'
      exact ends
    · exact fun ends => ⟨not_unread_of_ok added, ls, spelled, ends⟩
  rw [ends]
  cases o with
  | some t =>
    obtain ⟨b, current, hb⟩ := reads.current_some
    obtain ⟨closed, _⟩ := p
    cases current
    exact iff_of_true (.inl ⟨_, openWith_open hb.sound ts⟩) ⟨_, rfl⟩
  | none =>
    have current := reads.current_none
    obtain ⟨closed, _⟩ := p
    cases current
    cases ts with
    | nil =>
      obtain rfl : closed = [] := by simpa using reads.closed
      refine iff_of_true (.inr fun line mem => ?_) ⟨_, rfl⟩
      obtain rfl : line = [] := by simpa using List.filter_eq_nil_iff.1 filled.symm line mem
      rfl
    | cons t ts =>
      have read : closed ≠ [] := by
        rintro rfl
        cases reads.closed
      obtain ⟨b, closed, rfl⟩ := List.exists_cons_of_ne_nil read
      refine iff_of_false ?_ nofun
      rintro (⟨body, opened⟩ | headless)
      · exact not_openWith_closed _ body opened
      · have mem : [word "fn", word t.name, word t.params] ∈ linesRead (t :: ts) none := by
          simp [linesRead, FunctionText.lines, FunctionText.opening]
        rw [filled] at mem
        cases headless _ (List.mem_filter.1 mem).1

/-- Where the functions of a text are read, it is not cut short and all its lines can be read. -/
theorem readable_of_blocks {source : String} {bs : List Block} (read : blocks source = .ok bs) :
    ¬ Truncated source ∧ ∀ n, ¬ Unread (lines source.toList) n := by
  unfold blocks at read
  obtain ⟨p, added, finished⟩ := bind_ok.1 read
  refine ⟨fun truncated => ?_, not_unread_of_ok added⟩
  obtain ⟨e, unfinished⟩ := (truncated_iff added).1 truncated
  cases finished.symm.trans unfinished

theorem unread_of_blocks {source : String} (h : blocks source = .error e) : Truncated source ∨
    ∃ n, Unread (lines source.toList) n ∧ (∀ m < n, ¬ Unread (lines source.toList) m) ∧
      (e.Cites n ↔ ¬ LiteralHeadAt (lines source.toList) n) := by
  unfold blocks at h
  rcases bind_error.1 h with refused | ⟨p, added, unfinished⟩
  · exact .inr (unread_of_error refused)
  · exact .inl ((truncated_iff added).2 ⟨e, unfinished⟩)

/-- A text assembles only if it is not cut short and no line of it is wrong. Else, unless it is cut short, the error is
about the first line that is wrong: the message begins with the number of this line if and only if the line is not a head
with a literal where a word has to stand. -/
theorem error_cites_line (source : String) :
    (∀ program, assemble source = .ok program → ¬ Truncated source ∧ ∀ n, ¬ Offends source n) ∧
      ∀ e, assemble source = .error e → Truncated source ∨
        ∃ n, Offends source n ∧ (e.Cites n ↔ ¬ LiteralHeadAt (lines source.toList) n) := by
  constructor
  · intro program h
    unfold assemble at h
    obtain ⟨bs, read, h⟩ := bind_ok.1 h
    obtain ⟨fs, made, -⟩ := bind_ok.1 h
    obtain ⟨whole, readable⟩ := readable_of_blocks read
    refine ⟨whole, fun n offends => ?_⟩
    cases offends with
    | unread here => exact readable n here
    | unparsed _ layout here => exact not_unparsed_of_ok read made layout n here
  · intro e h
    unfold assemble at h
    rcases bind_error.1 h with unread | ⟨bs, read, h⟩
    · rcases unread_of_blocks unread with truncated | ⟨n, here, first, cites⟩
      · exact .inl truncated
      · exact .inr ⟨n, .unread here first, cites⟩
    · rcases bind_error.1 h with fault | ⟨_, -, h⟩
      · obtain ⟨ts, n, layout, here, first, cites⟩ := unparsed_of_error read fault
        obtain ⟨-, readable⟩ := readable_of_blocks read
        exact .inr ⟨n, .unparsed readable layout here first, iff_of_true cites fun literal => readable n literal.unread⟩
      · cases h

/-- A text with an instruction that stands for nothing before a line that cannot be read, which is the one that the error
is about. -/
def unterminatedText : String := "fn main 0\n\nl: # \"\njump nowhere\nstring r0 \"l\nend"

theorem error_cites_line_unterminated : assemble unterminatedText = .error ⟨some 5, .unterminated .double⟩ ∧
    (Truncated unterminatedText ∨ ∃ n, Offends unterminatedText n ∧
      (AssemblyError.Cites ⟨some 5, .unterminated .double⟩ n ↔ ¬ LiteralHeadAt (lines unterminatedText.toList) n)) := by
  have error : assemble unterminatedText = .error ⟨some 5, .unterminated .double⟩ := by
    rw [assemble_eq]; rfl
  exact ⟨error, (error_cites_line unterminatedText).2 _ error⟩

/-- A text whose function has a literal for its name. -/
def quotedNameText : String := "fn \"main\" 1\nend\n"

/-- It cannot be read, because of its first line, but the message does not say so. -/
theorem quoted_name_uncited : assemble quotedNameText = .error ⟨none, .unexpectedLiteral "main"⟩ ∧
    ¬ Truncated quotedNameText ∧ Offends quotedNameText 1 ∧
    ∀ n, ¬ AssemblyError.Cites ⟨none, .unexpectedLiteral "main"⟩ n := by
  have error : assemble quotedNameText = .error ⟨none, .unexpectedLiteral "main"⟩ := by
    rw [assemble_eq]; rfl
  have unread : Unread (lines quotedNameText.toList) 1 := by
    refine .refused ⟨[], "fn \"main\" 1".toList, ["end".toList], rfl, rfl, .nil, tokenize_eq_ok.1 rfl⟩ (.head ?_ ?_)
    · rintro body ⟨earlier, operands, split, -⟩
      simp at split
    · rintro ⟨name, params, ⟨⟩, -⟩
  have first : ∀ m < 1, ¬ Unread (lines quotedNameText.toList) m := by
    intro m lt unread
    obtain rfl : m = 0 := by omega
    cases unread with
    | refused here =>
      obtain ⟨texts, text, rest, -, zero, -⟩ := here
      omega
  exact ⟨error, fun truncated => truncated.readable 1 unread, .unread unread first, not_cites_literal "main"⟩

end SlotVM.Assembly
