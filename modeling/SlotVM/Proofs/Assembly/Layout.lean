/-
The layout of program text: without its empty lines it is a sequence of functions, each from `fn` to `end`
with instructions and labels between the two. `layout_of_blocks` and `blocks_of_layout`: the blocks of a text
are those of its layout, each label at the number of instruction lines before it.
-/
import SlotVM.Assembly.Basic
import SlotVM.Proofs.Assembly.Spelling

namespace SlotVM.Assembly

open Decimal Text

/-! ## Lines of a function -/

/-- The label that a line defines. -/
def definedLabel? : List Token → Option String
  | [⟨text, none⟩] => labelOf? text
  | _ => none

/-- Whether a line between the head and the end of a function is an instruction. -/
def isStatement (line : List Token) : Bool := (definedLabel? line).isNone

/-- A line between the head and the end of a function. -/
structure Inside (line : List Token) : Prop where
  ne_nil : line ≠ []
  not_head : ∀ operands, line ≠ word "fn" :: operands
  not_end : line ≠ [word "end"]

/-- The labels that lines define, each with the number of instruction lines before it and `n` more. The
latest is the first. -/
def labelsFrom (n : Nat) : List (List Token) → List (String × Nat)
  | [] => []
  | line :: rest =>
    match definedLabel? line with
    | some name => labelsFrom n rest ++ [(name, n)]
    | none => labelsFrom (n + 1) rest

/-- The text of a function: what its head says, and the lines up to its end, without empty ones. -/
structure FunctionText where
  name : String
  params : String
  body : List (List Token)

namespace FunctionText

/-- Its head and the lines after it. -/
def opening (t : FunctionText) : List (List Token) := [word "fn", word t.name, word t.params] :: t.body

/-- All its lines. -/
def lines (t : FunctionText) : List (List Token) := t.opening ++ [[word "end"]]

/-- Its instruction lines. -/
def statements (t : FunctionText) : List (List Token) := t.body.filter isStatement

/-- Its labels, the latest first. -/
def labels (t : FunctionText) : List (String × Nat) := labelsFrom 0 t.body

/-- The function with more lines. -/
def extend (t : FunctionText) (lines : List (List Token)) : FunctionText := { t with body := t.body ++ lines }

/-- The function with one more line. -/
def push (t : FunctionText) (line : List Token) : FunctionText := t.extend [line]

/-- The text of a function that can be read: no line of it is a head or an end, and no label is defined twice. -/
structure Sound (t : FunctionText) : Prop where
  inside : ∀ line ∈ t.body, Inside line
  labels : (t.labels.map Prod.fst).Nodup

end FunctionText

theorem labelOf?_eq_some {text name : String} : labelOf? text = some name ↔ text = name ++ ":" ∧ name ≠ "" := by
  unfold labelOf?
  constructor
  · intro h
    split at h
    · rename_i c rest reversed
      cases h
      have chars : text.toList = (c :: rest).reverse ++ [':'] := by
        rw [← List.reverse_reverse text.toList, reversed, List.reverse_cons]
      refine ⟨String.toList_inj.1 ?_, fun empty => ?_⟩
      · rw [chars, String.toList_append, String.toList_ofList]; rfl
      · simpa using congrArg String.toList empty
    · cases h
  · rintro ⟨rfl, ne⟩
    obtain ⟨c, rest, reversed⟩ : ∃ c rest, name.toList.reverse = c :: rest := by
      refine List.exists_cons_of_ne_nil fun empty => ne ?_
      simpa using empty
    rw [String.toList_append, List.reverse_append, show ":".toList.reverse = [':'] from rfl, List.singleton_append,
      reversed]
    show some (String.ofList (c :: rest).reverse) = _
    rw [← reversed, List.reverse_reverse, String.ofList_toList]

/-- A line defines a label if it is one word, and the word is the label with a colon after it. -/
theorem definedLabel?_eq_some {line : List Token} {name : String} :
    definedLabel? line = some name ↔ line = [word (name ++ ":")] ∧ name ≠ "" := by
  unfold definedLabel?
  split
  · rename_i text
    rw [labelOf?_eq_some]
    simp [word]
  · rename_i other
    constructor
    · rintro ⟨⟩
    · rintro ⟨rfl, -⟩
      exact absurd rfl (other _)

theorem labelsFrom_append (n : Nat) (before after : List (List Token)) : labelsFrom n (before ++ after) =
    labelsFrom (n + (before.filter isStatement).length) after ++ labelsFrom n before := by
  induction before generalizing n with
  | nil => simp [labelsFrom]
  | cons line before ih =>
    rw [List.cons_append, labelsFrom, labelsFrom]
    cases defined : definedLabel? line with
    | some name => simp [ih, isStatement, defined]
    | none => simp [ih, isStatement, defined, Nat.add_assoc, Nat.add_comm 1]

/-- Where a label is defined. -/
theorem mem_labelsFrom {n k : Nat} {name : String} {body : List (List Token)} : (name, k) ∈ labelsFrom n body ↔
    ∃ before line after, body = before ++ line :: after ∧ definedLabel? line = some name ∧
      k = n + (before.filter isStatement).length := by
  constructor
  · intro mem
    induction body generalizing n with
    | nil => cases mem
    | cons line body ih =>
      rw [labelsFrom] at mem
      cases defined : definedLabel? line with
      | some other =>
        rw [defined] at mem
        rcases List.mem_append.1 mem with mem | mem
        · obtain ⟨before, line', after, rfl, defined', rfl⟩ := ih mem
          exact ⟨line :: before, line', after, rfl, defined', by simp [isStatement, defined]⟩
        · cases List.mem_singleton.1 mem
          exact ⟨[], line, body, rfl, defined, rfl⟩
      | none =>
        rw [defined] at mem
        obtain ⟨before, line', after, rfl, defined', rfl⟩ := ih mem
        refine ⟨line :: before, line', after, rfl, defined', ?_⟩
        simp only [isStatement, defined, Option.isNone_none, List.filter_cons_of_pos, List.length_cons]
        omega
  · rintro ⟨before, line, after, rfl, defined, rfl⟩
    rw [labelsFrom_append, labelsFrom, defined]
    simp

namespace FunctionText

variable {t : FunctionText} {line : List Token}

theorem statements_push : (t.push line).statements = t.statements ++ [line].filter isStatement :=
  List.filter_append ..

theorem labels_push : (t.push line).labels = labelsFrom t.statements.length [line] ++ t.labels := by
  rw [labels, push, extend, labelsFrom_append, Nat.zero_add]; rfl

theorem extend_push (t : FunctionText) (line : List Token) (rest : List (List Token)) :
    (t.push line).extend rest = t.extend (line :: rest) := by
  simp [push, extend]

theorem Sound.of_extend {rest : List (List Token)} (h : (t.extend rest).Sound) : t.Sound where
  inside line mem := h.inside line (List.mem_append_left _ mem)
  labels := by
    have := h.labels
    rw [FunctionText.labels, extend, labelsFrom_append, List.map_append] at this
    exact (List.nodup_append.1 this).2.1

end FunctionText

/-! ## What a line is for -/

/-- The four sorts of lines that are not empty. -/
theorem lineForm_cases (line : List Token) :
    line = [] ∨ (∃ operands, line = word "fn" :: operands) ∨ line = [word "end"] ∨ Inside line := by
  by_cases blank : line = []
  · exact .inl blank
  by_cases head : ∃ operands, line = word "fn" :: operands
  · exact .inr (.inl head)
  by_cases finish : line = [word "end"]
  · exact .inr (.inr (.inl finish))
  · exact .inr (.inr (.inr ⟨blank, fun operands heq => head ⟨operands, heq⟩, finish⟩))

theorem ofTokens_inside {line : List Token} (h : Inside line) : LineForm.ofTokens line =
    match definedLabel? line with
    | some name => .label name
    | none => .statement line := by
  obtain ⟨ne, head, finish⟩ := h
  obtain ⟨⟨text, quote⟩, rest, rfl⟩ := List.exists_cons_of_ne_nil ne
  cases quote with
  | some q => cases rest <;> rfl
  | none =>
    have not_fn : text ≠ "fn" := by
      rintro rfl
      exact head rest rfl
    cases rest with
    | cons u rest => simp [LineForm.ofTokens, not_fn, definedLabel?]
    | nil =>
      have not_end : text ≠ "end" := by
        rintro rfl
        exact finish rfl
      simp only [LineForm.ofTokens, not_fn, not_end, definedLabel?]
      cases labelOf? text <;> rfl

/-- Takes in the tokens of one line. -/
def Progress.addTokens (p : Progress) (line : Line) : Except AssemblyError Progress := do
  match LineForm.ofTokens line.tokens, p.current with
  | .blank, _ => return p
  | .head operands, _ => p.openBlock line.number operands
  | _, none => throw ⟨some line.number, .outsideFunction⟩
  | .finish, some block => return ⟨block :: p.closed, none⟩
  | .label name, some block =>
    if (block.labels.lookup name).isSome then throw ⟨some line.number, .labelTwice name⟩
    return { p with current := some { block with labels := (name, block.lines.size) :: block.labels } }
  | .statement tokens, some block =>
    return { p with current := some { block with lines := block.lines.push ⟨line.number, tokens⟩ } }

theorem Progress.addLine_eq (p : Progress) (number : Nat) (text : List Char) :
    p.addLine number text = atLine number (tokenize text) >>= fun tokens => p.addTokens ⟨number, tokens⟩ := rfl

namespace Progress

variable {p q : Progress} {n : Nat} {b : Block}

theorem addTokens_head (p : Progress) (n : Nat) (operands : List Token) :
    p.addTokens ⟨n, word "fn" :: operands⟩ = p.openBlock n operands := rfl

theorem addTokens_end (current : p.current = some b) :
    p.addTokens ⟨n, [word "end"]⟩ = .ok ⟨b :: p.closed, none⟩ := by
  obtain ⟨closed, _⟩ := p
  cases current; rfl

theorem addTokens_inside {line : List Token} (h : Inside line) (current : p.current = some b) :
    p.addTokens ⟨n, line⟩ =
      match definedLabel? line with
      | some name =>
        if (b.labels.lookup name).isSome then .error ⟨some n, .labelTwice name⟩
        else .ok { p with current := some { b with labels := (name, b.lines.size) :: b.labels } }
      | none => .ok { p with current := some { b with lines := b.lines.push ⟨n, line⟩ } } := by
  obtain ⟨closed, _⟩ := p
  cases current
  unfold addTokens
  rw [ofTokens_inside h]
  cases definedLabel? line with
  | none => rfl
  | some name =>
    dsimp only
    split <;> rfl

theorem addTokens_outside {line : List Token} (h : Inside line ∨ line = [word "end"]) (current : p.current = none) :
    p.addTokens ⟨n, line⟩ = .error ⟨some n, .outsideFunction⟩ := by
  obtain ⟨closed, _⟩ := p
  cases current
  rcases h with h | rfl
  · unfold addTokens
    rw [ofTokens_inside h]
    cases definedLabel? line <;> rfl
  · rfl

theorem openBlock_words {name params : String} {count : Nat} (current : p.current = none)
    (number : unsigned? params = some count) : p.openBlock n [word name, word params] =
      if p.closed.any (·.name == name) then .error ⟨some n, .functionTwice name⟩
      else .ok { p with current := some ⟨name, count, #[], []⟩ } := by
  obtain ⟨closed, _⟩ := p
  cases current
  simp only [openBlock, word_bare, atNoLine, number, atLine, bind, Except.bind]
  split <;> rfl

/-- A head opens a block only if none is open, and its operands are a name that is not taken and a number. -/
theorem openBlock_ok {operands : List Token} (h : p.openBlock n operands = .ok q) :
    p.current = none ∧ ∃ name params count, operands = [word name, word params] ∧ unsigned? params = some count ∧
      (∀ b ∈ p.closed, b.name ≠ name) ∧ q = { p with current := some ⟨name, count, #[], []⟩ } := by
  obtain ⟨closed, _ | b⟩ := p
  · refine ⟨rfl, ?_⟩
    match operands with
    | [] | [_] | _ :: _ :: _ :: _ => cases h
    | [⟨name, _⟩, ⟨params, some _⟩] => cases h
    | [⟨name, quote⟩, ⟨params, none⟩] =>
      cases number : unsigned? params with
      | none => simp [openBlock, Token.bare, atNoLine, number, atLine, bind, Except.bind] at h
      | some count =>
        cases quote with
        | some _ => simp [openBlock, Token.bare, atNoLine, number, atLine, bind, Except.bind] at h
        | none =>
          have words := @openBlock_words ⟨closed, none⟩ n name params count rfl number
          rw [show (⟨name, none⟩ : Token) = word name from rfl, show (⟨params, none⟩ : Token) = word params from rfl,
            words] at h
          split at h
          · cases h
          · rename_i fresh
            cases h
            refine ⟨name, params, count, rfl, number, ?_, rfl⟩
            simpa using fresh
  · cases h

end Progress

/-! ## Blocks and the texts that they are read from -/

/-- A block holds what the text of a function says. -/
structure Block.Reads (b : Block) (t : FunctionText) : Prop where
  sound : t.Sound
  name : b.name = t.name
  params : unsigned? t.params = some b.params
  lines : b.lines.toList.map Line.tokens = t.statements
  labels : b.labels = t.labels

/-- The functions that have been read, and the one that is open. -/
structure Progress.Reads (p : Progress) (ts : List FunctionText) (o : Option FunctionText) : Prop where
  closed : List.Forall₂ Block.Reads p.closed.reverse ts
  current : Option.Rel Block.Reads p.current o
  names : ((ts ++ o.toList).map FunctionText.name).Nodup

theorem Block.Reads.push {b : Block} {t : FunctionText} {line : List Token} (h : b.Reads t) (n : Nat)
    (sound : (t.push line).Sound) (statement : definedLabel? line = none) :
    Reads { b with lines := b.lines.push ⟨n, line⟩ } (t.push line) where
  sound := sound
  name := h.name
  params := h.params
  lines := by
    rw [FunctionText.statements_push, ← h.lines]
    simp [isStatement, statement]
  labels := by
    rw [FunctionText.labels_push, ← h.labels]
    simp [labelsFrom, statement]

theorem Block.Reads.label {b : Block} {t : FunctionText} {line : List Token} {name : String} (h : b.Reads t)
    (sound : (t.push line).Sound) (defined : definedLabel? line = some name) :
    Reads { b with labels := (name, b.lines.size) :: b.labels } (t.push line) where
  sound := sound
  name := h.name
  params := h.params
  lines := by
    rw [FunctionText.statements_push, ← h.lines]
    simp [isStatement, defined]
  labels := by
    have size : b.lines.size = t.statements.length := by rw [← h.lines]; simp
    rw [FunctionText.labels_push, ← h.labels]
    simp [labelsFrom, defined, size]

/-- Whether a label is new. -/
theorem Block.Reads.lookup {b : Block} {t : FunctionText} (h : b.Reads t) (name : String) :
    (b.labels.lookup name).isSome = true ↔ name ∈ t.labels.map Prod.fst := by
  rw [h.labels, List.lookup_isSome_iff, List.mem_map]
  simp only [beq_iff_eq, @eq_comm _ name]

theorem names_of_reads {bs : List Block} {ts : List FunctionText} (h : List.Forall₂ Block.Reads bs ts) :
    bs.map Block.name = ts.map FunctionText.name := by
  induction h with
  | nil => rfl
  | cons reads _ ih => rw [List.map_cons, List.map_cons, reads.name, ih]

theorem FunctionText.Sound.push {t : FunctionText} {line : List Token} (h : t.Sound) (inside : Inside line)
    (fresh : ∀ name, definedLabel? line = some name → name ∉ t.labels.map Prod.fst) : (t.push line).Sound where
  inside line' mem := by
    rcases List.mem_append.1 mem with mem | mem
    · exact h.inside line' mem
    · rwa [List.mem_singleton.1 mem]
  labels := by
    rw [FunctionText.labels_push, labelsFrom]
    cases defined : definedLabel? line with
    | none => exact h.labels
    | some name => exact List.nodup_cons.2 ⟨fresh name defined, h.labels⟩

theorem FunctionText.Sound.fresh {t : FunctionText} {line : List Token} {name : String} (h : (t.push line).Sound)
    (defined : definedLabel? line = some name) : name ∉ t.labels.map Prod.fst := by
  have nodup := h.labels
  rw [FunctionText.labels_push, labelsFrom, defined] at nodup
  exact (List.nodup_cons.1 nodup).1

namespace Progress.Reads

variable {p q : Progress} {ts : List FunctionText} {t : FunctionText} {n : Nat} {line : List Token}

theorem current_none (h : p.Reads ts none) : p.current = none := by
  have := h.current
  cases hc : p.current with
  | none => rfl
  | some b => rw [hc] at this; cases this

theorem current_some (h : p.Reads ts (some t)) : ∃ b, p.current = some b ∧ b.Reads t := by
  have := h.current
  cases hc : p.current with
  | none => rw [hc] at this; cases this
  | some b =>
    rw [hc] at this
    cases this with
    | some reads => exact ⟨b, rfl, reads⟩

/-- The names of the blocks are those of the texts. -/
theorem fresh_iff (h : p.Reads ts none) (name : String) :
    (∀ b ∈ p.closed, b.name ≠ name) ↔ name ∉ ts.map FunctionText.name := by
  rw [← names_of_reads h.closed]
  simp

/-- Opening a function. -/
theorem opened (h : p.Reads ts none) {name params : String} {count : Nat} (number : unsigned? params = some count)
    (fresh : name ∉ ts.map FunctionText.name) :
    Reads { p with current := some ⟨name, count, #[], []⟩ } ts (some ⟨name, params, []⟩) where
  closed := h.closed
  current := .some ⟨⟨nofun, .nil⟩, rfl, number, rfl, rfl⟩
  names := by
    have names := h.names
    rw [Option.toList_none, List.append_nil] at names
    rw [Option.toList_some, List.map_append, List.map_singleton, List.nodup_append]
    refine ⟨names, List.pairwise_singleton _ _, ?_⟩
    rintro a ha b hb rfl
    rw [List.mem_singleton.1 hb] at ha
    exact fresh ha

/-- The line of an open function. -/
theorem pushed {b : Block} (h : p.Reads ts (some t)) (reads : b.Reads (t.push line)) :
    Reads { p with current := some b } ts (some (t.push line)) where
  closed := h.closed
  current := .some reads
  names := by simpa [FunctionText.push, FunctionText.extend] using h.names

/-- Closing a function. -/
theorem ended {b : Block} (h : p.Reads ts (some t)) (current : p.current = some b) :
    Reads ⟨b :: p.closed, none⟩ (ts ++ [t]) none where
  closed := by
    obtain ⟨b', current', reads⟩ := h.current_some
    rw [current] at current'
    cases current'
    rw [List.reverse_cons]
    exact List.rel_append h.closed (.cons reads .nil)
  current := .none
  names := by simpa using h.names

/-- A line inside of an open function is taken in if it defines no label that is defined. -/
theorem inside {n : Nat} (h : p.Reads ts (some t)) (sound : (t.push line).Sound) (inside : Inside line) :
    ∃ q, p.addTokens ⟨n, line⟩ = .ok q ∧ q.Reads ts (some (t.push line)) := by
  obtain ⟨b, current, reads⟩ := h.current_some
  rw [addTokens_inside inside current]
  cases defined : definedLabel? line with
  | none => exact ⟨_, rfl, h.pushed (reads.push n sound defined)⟩
  | some name =>
    have fresh : ¬ (b.labels.lookup name).isSome = true := mt (reads.lookup name).1 (sound.fresh defined)
    exact ⟨_, if_neg fresh, h.pushed (reads.label sound defined)⟩

/-- Only such lines are taken in. -/
theorem of_inside {n : Nat} (h : p.Reads ts (some t)) (inside : Inside line) (ok : p.addTokens ⟨n, line⟩ = .ok q) :
    q.Reads ts (some (t.push line)) := by
  obtain ⟨b, current, reads⟩ := h.current_some
  have sound : (t.push line).Sound := by
    refine reads.sound.push inside fun name defined mem => ?_
    rw [addTokens_inside inside current, defined] at ok
    dsimp only at ok
    rw [if_pos ((reads.lookup name).2 mem)] at ok
    cases ok
  obtain ⟨q', ok', reads'⟩ := h.inside (n := n) sound inside
  rw [ok] at ok'
  cases ok'
  exact reads'

end Progress.Reads

/-! ## Texts of functions -/

/-- The lines that have been read of a text: whole functions, and the open one. -/
def linesRead (ts : List FunctionText) (o : Option FunctionText) : List (List Token) :=
  ts.flatMap FunctionText.lines ++ (o.map FunctionText.opening).getD []

/-- The lines that are not empty. -/
def filled (ls : List Line) : List (List Token) := (ls.map Line.tokens).filter (!·.isEmpty)

namespace Progress.Reads

variable {p q : Progress} {ts : List FunctionText} {o : Option FunctionText}

/-- Nothing has been read. -/
theorem empty : (⟨[], none⟩ : Progress).Reads [] none := ⟨.nil, .none, .nil⟩

/-- What is taken in is a line of a layout. -/
theorem addTokens (h : p.Reads ts o) {line : Line} (ok : p.addTokens line = .ok q) :
    ∃ ts' o', q.Reads ts' o' ∧ linesRead ts' o' = linesRead ts o ++ filled [line] := by
  obtain ⟨n, line⟩ := line
  rcases lineForm_cases line with rfl | ⟨operands, rfl⟩ | rfl | inside
  · cases ok
    exact ⟨ts, o, h, (List.append_nil _).symm⟩
  · rw [addTokens_head] at ok
    obtain ⟨current, name, params, count, rfl, number, fresh, rfl⟩ := openBlock_ok ok
    cases o with
    | some t =>
      obtain ⟨b, some, -⟩ := h.current_some
      rw [current] at some
      cases some
    | none =>
      refine ⟨ts, _, h.opened number ((h.fresh_iff name).1 fresh), ?_⟩
      simp [linesRead, filled, FunctionText.opening]
  · cases o with
    | none =>
      rw [addTokens_outside (.inr rfl) h.current_none] at ok
      cases ok
    | some t =>
      obtain ⟨b, current, -⟩ := h.current_some
      rw [addTokens_end current] at ok
      cases ok
      refine ⟨_, _, h.ended current, ?_⟩
      simp [linesRead, filled, FunctionText.lines]
  · cases o with
    | none =>
      rw [addTokens_outside (.inl inside) h.current_none] at ok
      cases ok
    | some t =>
      refine ⟨ts, _, h.of_inside inside ok, ?_⟩
      simp [linesRead, filled, FunctionText.opening, FunctionText.push, FunctionText.extend, inside.ne_nil]

theorem foldlM {ls : List Line} (h : p.Reads ts o) (ok : ls.foldlM Progress.addTokens p = .ok q) :
    ∃ ts' o', q.Reads ts' o' ∧ linesRead ts' o' = linesRead ts o ++ filled ls := by
  induction ls generalizing p ts o with
  | nil =>
    cases ok
    exact ⟨ts, o, h, (List.append_nil _).symm⟩
  | cons line ls ih =>
    rw [List.foldlM_cons] at ok
    obtain ⟨p', next, ok⟩ := bind_ok.1 ok
    obtain ⟨ts', o', h', lines'⟩ := h.addTokens next
    obtain ⟨ts'', o'', h'', lines''⟩ := ih h' ok
    refine ⟨ts'', o'', h'', ?_⟩
    rw [lines'', lines', List.append_assoc, filled, filled, filled, ← List.filter_append, ← List.map_append]; rfl

/-- The body of a function is taken in line by line. -/
theorem body {t : FunctionText} {ls : List Line} (h : p.Reads ts (some t))
    (sound : (t.extend (ls.map Line.tokens)).Sound) :
    ∃ q, ls.foldlM Progress.addTokens p = .ok q ∧ q.Reads ts (some (t.extend (ls.map Line.tokens))) := by
  induction ls generalizing p t with
  | nil =>
    refine ⟨p, rfl, ?_⟩
    rwa [List.map_nil, FunctionText.extend, List.append_nil]
  | cons line ls ih =>
    rw [List.map_cons, ← FunctionText.extend_push] at sound ⊢
    have inside : Inside line.tokens := sound.of_extend.inside _ (List.mem_append_right _ (List.mem_singleton_self _))
    obtain ⟨p', next, h'⟩ := h.inside (n := line.number) sound.of_extend inside
    obtain ⟨q, rest, reads⟩ := ih h' sound
    refine ⟨q, ?_, reads⟩
    rw [List.foldlM_cons, next]
    exact rest

/-- The lines of a function are taken in, and leave it as the last one that was read. -/
theorem function {t : FunctionText} {ls : List Line} (h : p.Reads ts none) (sound : t.Sound) {count : Nat}
    (number : unsigned? t.params = some count) (fresh : t.name ∉ ts.map FunctionText.name)
    (tokens : ls.map Line.tokens = t.lines) :
    ∃ q, ls.foldlM Progress.addTokens p = .ok q ∧ q.Reads (ts ++ [t]) none := by
  obtain ⟨opening, last, rfl, hopening, hlast⟩ := List.map_eq_append_iff.1 tokens
  obtain ⟨⟨n, _⟩, body, rfl, rfl, hbody⟩ := List.map_eq_cons_iff.1 hopening
  obtain ⟨⟨n', _⟩, rest, rfl, rfl, hrest⟩ := List.map_eq_cons_iff.1 hlast
  cases List.map_eq_nil_iff.1 hrest
  have head : p.addTokens ⟨n, [word "fn", word t.name, word t.params]⟩ =
      .ok { p with current := some ⟨t.name, count, #[], []⟩ } := by
    rw [addTokens_head, openBlock_words h.current_none number, if_neg]
    simpa using (h.fresh_iff t.name).2 fresh
  have whole : FunctionText.extend ⟨t.name, t.params, []⟩ (body.map Line.tokens) = t := by rw [hbody]; rfl
  obtain ⟨q, taken, reads⟩ := (h.opened number fresh).body (whole.symm ▸ sound)
  rw [whole] at reads
  obtain ⟨b, current, -⟩ := reads.current_some
  refine ⟨_, ?_, reads.ended current⟩
  rw [List.cons_append, List.foldlM_cons, head]
  show (body ++ _).foldlM _ _ = _
  rw [List.foldlM_append, taken]
  show List.foldlM Progress.addTokens _ [_] = _
  rw [List.foldlM_cons, addTokens_end current]; rfl

end Progress.Reads

/-! ## Layouts -/

/-- The layout of a program text: what is left of it without its empty lines. -/
structure Layout (source : String) (ts : List FunctionText) : Prop where
  lines : ∃ ls, tokenLines source = .ok ls ∧ ls.filter (!·.isEmpty) = ts.flatMap FunctionText.lines
  nonempty : ts ≠ []
  names : (ts.map FunctionText.name).Nodup
  params : ∀ t ∈ ts, (unsigned? t.params).isSome
  sound : ∀ t ∈ ts, t.Sound

/-- The lines of its functions are lines of the text. -/
theorem Layout.mem_lines {source : String} {ts : List FunctionText} (h : Layout source ts) :
    ∃ ls, tokenLines source = .ok ls ∧ ∀ t ∈ ts, ∀ line ∈ t.lines, line ∈ ls := by
  obtain ⟨ls, read, filled⟩ := h.lines
  refine ⟨ls, read, fun t ht line hline => ?_⟩
  have mem : line ∈ ls.filter (!·.isEmpty) := filled ▸ List.mem_flatMap.2 ⟨t, ht, hline⟩
  exact (List.mem_filter.1 mem).1

theorem foldlM_filled (ls : List Line) (p : Progress) :
    ls.foldlM Progress.addTokens p = (ls.filter (!·.tokens.isEmpty)).foldlM Progress.addTokens p := by
  induction ls generalizing p with
  | nil => rfl
  | cons line ls ih =>
    obtain ⟨n, line⟩ := line
    cases line with
    | nil => exact ih p
    | cons t line =>
      rw [List.filter_cons_of_pos rfl, List.foldlM_cons, List.foldlM_cons]
      exact bind_congr fun p' => ih p'

/-- The functions of a layout are read one after the other. -/
theorem Progress.Reads.functions {p : Progress} {done ts : List FunctionText} {ls : List Line} (h : p.Reads done none)
    (tokens : ls.map Line.tokens = ts.flatMap FunctionText.lines) (names : ((done ++ ts).map FunctionText.name).Nodup)
    (params : ∀ t ∈ ts, (unsigned? t.params).isSome) (sound : ∀ t ∈ ts, t.Sound) :
    ∃ q, ls.foldlM Progress.addTokens p = .ok q ∧ q.Reads (done ++ ts) none := by
  induction ts generalizing p done ls with
  | nil =>
    cases List.map_eq_nil_iff.1 tokens
    refine ⟨p, rfl, ?_⟩
    rwa [List.append_nil]
  | cons t ts ih =>
    rw [List.flatMap_cons] at tokens
    obtain ⟨first, rest, rfl, hfirst, hrest⟩ := List.map_eq_append_iff.1 tokens
    obtain ⟨ht, hts⟩ := List.forall_mem_cons.1 sound
    obtain ⟨hp, hps⟩ := List.forall_mem_cons.1 params
    obtain ⟨count, number⟩ := Option.isSome_iff_exists.1 hp
    have fresh : t.name ∉ done.map FunctionText.name := by
      intro mem
      rw [List.map_append, List.nodup_append] at names
      exact names.2.2 _ mem _ (List.mem_cons_self ..) rfl
    obtain ⟨p', taken, reads⟩ := h.function ht number fresh hfirst
    rw [List.append_cons] at names
    obtain ⟨q, taken', reads'⟩ := ih reads hrest names hps hts
    refine ⟨q, ?_, ?_⟩
    · rw [List.foldlM_append, taken]
      exact taken'
    · rwa [List.append_assoc] at reads'

/-! ## Numbered lines -/

theorem atLine_ok {α : Type} {n : Nat} {r : Except SyntaxError α} {a : α} : atLine n r = .ok a ↔ r = .ok a := by
  cases r <;> simp [atLine]

/-- A line of a text with its number, and its tokens. -/
def Tokenized (text : List Char × Nat) (line : Line) : Prop :=
  tokenize text.1 = .ok line.tokens ∧ line.number = text.2

theorem addLines_eq {ls : List (List Char × Nat)} {lines : List Line} (h : List.Forall₂ Tokenized ls lines)
    (p : Progress) : p.addLines ls = lines.foldlM Progress.addTokens p := by
  induction h generalizing p with
  | nil => rfl
  | @cons text line ls lines tokenized _ ih =>
    obtain ⟨text, number⟩ := text
    obtain ⟨_, tokens⟩ := line
    obtain ⟨read, rfl⟩ := tokenized
    rw [Progress.addLines, Progress.addLine_eq, read, List.foldlM_cons]
    exact bind_congr fun p' => ih p'

theorem tokenized_of_addLines {p q : Progress} {ls : List (List Char × Nat)} (h : p.addLines ls = .ok q) :
    ∃ lines, List.Forall₂ Tokenized ls lines := by
  induction ls generalizing p with
  | nil => exact ⟨[], .nil⟩
  | cons text ls ih =>
    obtain ⟨text, number⟩ := text
    rw [Progress.addLines, Progress.addLine_eq] at h
    obtain ⟨p', taken, h⟩ := bind_ok.1 h
    obtain ⟨tokens, read, -⟩ := bind_ok.1 taken
    obtain ⟨lines, tokenized⟩ := ih h
    exact ⟨⟨number, tokens⟩ :: lines, .cons ⟨atLine_ok.1 read, rfl⟩ tokenized⟩

/-- The tokens of the lines of a text do not depend on their numbers. -/
theorem tokenized_iff {cs : List (List Char)} {n : Nat} {ls : List (List Token)} :
    cs.mapM tokenize = .ok ls ↔ ∃ lines, List.Forall₂ Tokenized (cs.zipIdx n) lines ∧ lines.map Line.tokens = ls := by
  rw [mapM_eq_ok_iff]
  constructor
  · intro h
    induction h generalizing n with
    | nil => exact ⟨[], .nil, rfl⟩
    | @cons text tokens cs ls read _ ih =>
      obtain ⟨lines, tokenized, rfl⟩ := ih (n := n + 1)
      exact ⟨⟨n, tokens⟩ :: lines, .cons ⟨read, rfl⟩ tokenized, rfl⟩
  · rintro ⟨lines, h, rfl⟩
    induction cs generalizing n lines with
    | nil =>
      cases h
      exact .nil
    | cons text cs ih =>
      rw [List.zipIdx_cons, List.forall₂_cons_left_iff] at h
      obtain ⟨line, lines, ⟨read, -⟩, h, rfl⟩ := h
      exact .cons read (ih lines h)

/-! ## Blocks and layouts -/

/-- The blocks of a text that can be read are those of its layout. -/
theorem layout_of_blocks {source : String} {bs : List Block} (h : blocks source = .ok bs) :
    ∃ ts, Layout source ts ∧ List.Forall₂ Block.Reads bs ts := by
  unfold blocks at h
  obtain ⟨p, added, h⟩ := bind_ok.1 h
  obtain ⟨ls, tokenized⟩ := tokenized_of_addLines added
  rw [addLines_eq tokenized] at added
  obtain ⟨ts, o, reads, filled⟩ := Progress.Reads.empty.foldlM added
  obtain ⟨closed, _ | block⟩ := p
  · cases o with
    | some t => cases reads.current
    | none =>
      have nonempty : closed ≠ [] ∧ bs = closed.reverse := by
        cases closed with
        | nil => cases h
        | cons b closed => cases h; exact ⟨List.cons_ne_nil _ _, rfl⟩
      obtain ⟨nonempty, rfl⟩ := nonempty
      have each : ∀ t ∈ ts, (unsigned? t.params).isSome ∧ t.Sound := by
        intro t mem
        obtain ⟨b, -, hb⟩ := exists_of_forall₂ reads.closed.flip t mem
        exact ⟨hb.params ▸ rfl, hb.sound⟩
      refine ⟨ts, ⟨⟨_, tokenized_iff.2 ⟨ls, tokenized, rfl⟩, ?_⟩, ?_, ?_, ?_, ?_⟩, reads.closed⟩
      · simpa [linesRead, Assembly.filled] using filled.symm
      · rintro rfl
        exact nonempty (List.reverse_eq_nil_iff.1 (List.forall₂_nil_right_iff.1 reads.closed))
      · simpa using reads.names
      · exact fun t mem => (each t mem).1
      · exact fun t mem => (each t mem).2
  · cases h

/-- A text with a layout can be read. -/
theorem blocks_of_layout {source : String} {ts : List FunctionText} (h : Layout source ts) :
    ∃ bs, blocks source = .ok bs ∧ List.Forall₂ Block.Reads bs ts := by
  obtain ⟨tls, tokens, filled⟩ := h.lines
  obtain ⟨ls, tokenized, rfl⟩ := (tokenized_iff (n := 1)).1 tokens
  have lines : (ls.filter (!·.tokens.isEmpty)).map Line.tokens = ts.flatMap FunctionText.lines := by
    rw [← filled, List.filter_map]; rfl
  obtain ⟨⟨closed, current⟩, taken, reads⟩ := Progress.Reads.empty.functions lines h.names h.params h.sound
  cases reads.current_none
  rw [List.nil_append] at reads
  refine ⟨closed.reverse, ?_, reads.closed⟩
  unfold blocks
  rw [addLines_eq tokenized, foldlM_filled, taken]
  cases closed with
  | nil => exact absurd (List.forall₂_nil_left_iff.1 reads.closed) h.nonempty
  | cons b closed => rfl

end SlotVM.Assembly
