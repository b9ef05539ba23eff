/-
Program text written from tokens. `LineSpelling` says how a line may be written, and `tokenize_eq_ok` that it is read
as its tokens, and nothing else is. One way is `spellLine`: a blank between the tokens, and in literals quotes,
backslashes and line feeds escaped. `tokenLines_spellLines`: a text of such lines is read back. `Writable` says which
tokens can be written so, and those that are read are among them.
-/
import SlotVM.Assembly.Token
import SlotVM.Proofs.Computation
import SlotVM.Text.Lines

namespace SlotVM.Assembly

open Text

/-! ## Words -/

/-- Whether a bare word goes on with `c`: it neither separates tokens nor begins a comment. -/
def isWordChar (c : Char) : Bool := !isSeparator c && c != commentMark

/-- The characters of a bare word. It does not begin as a literal does. -/
def IsWord (cs : List Char) : Prop := cs ≠ [] ∧ (∀ c ∈ cs, isWordChar c = true) ∧ ∀ c ∈ cs.head?, quoteOf? c = none

instance (cs : List Char) : Decidable (IsWord cs) :=
  decidable_of_iff (cs ≠ [] ∧ cs.all isWordChar = true ∧ (cs.head?.all fun c => quoteOf? c = none) = true) (by
    cases cs <;> simp [IsWord])

/-- A token that can be written: a literal, or a bare word. -/
def Token.Writable (t : Token) : Prop := t.quote = none → IsWord t.text.toList

/-- A bare word as a token. -/
def word (text : String) : Token := ⟨text, none⟩

@[simp] theorem word_bare (text : String) : (word text).bare = .ok text := rfl

theorem bare_ok {t : Token} {text : String} : t.bare = .ok text ↔ t = word text := by
  obtain ⟨s, _ | q⟩ := t <;> simp [Token.bare, word]

theorem writable_word {text : String} (h : IsWord text.toList) : (word text).Writable := fun _ => h

theorem writable_literal (text : String) (q : Quote) : Token.Writable ⟨text, some q⟩ := fun h => nomatch h

/-- Printed ASCII characters belong to words, but for the comma and the mark of comments. -/
theorem isWordChar_of_ascii {c : Char} (low : 0x20 < c.toNat) (high : c.toNat < 0x7F) (comma : c ≠ ',')
    (mark : c ≠ '#') : isWordChar c = true := by
  have blank : isBlank c = false := by
    simp only [isBlank, inRanges, blankRanges, List.any_cons, List.any_nil, Bool.or_false, Bool.or_eq_false_iff,
      Bool.and_eq_false_iff, decide_eq_false_iff_not]
    omega
  simp [isWordChar, isSeparator, commentMark, blank, comma, mark]

theorem not_lineFeed_of_isWordChar {c : Char} (h : isWordChar c = true) : c ≠ '\n' := by
  rintro rfl
  exact absurd h (by decide)

theorem not_return_of_isWordChar {c : Char} (h : isWordChar c = true) : c ≠ '\r' := by
  rintro rfl
  exact absurd h (by decide)

/-! ## Spellings -/

/-- The escapes of literals: the mark after the backslash, and the character that the two stand for. -/
def escapes : List (Char × Char) :=
  [('n', '\n'), ('t', '\t'), ('0', '\x00'), ('\\', '\\'), ('"', '"'), ('\'', '\'')]

/-- How a character may be written in a literal: escaped, if there is an escape for it, and as it is, but for the
closing quote and the backslash. A line feed as it is would end the line. -/
inductive CharSpelling (q : Quote) : Char → List Char → Prop
  | escaped {mark c : Char} (escape : (mark, c) ∈ escapes) : CharSpelling q c ['\\', mark]
  | plain {c : Char} (close : c ≠ q.char) (backslash : c ≠ '\\') : CharSpelling q c [c]

/-- How a token may be written: a bare word as it is, a literal between its quotes. -/
inductive TokenSpelling : Token → List Char → Prop
  | word {text : String} (bare : IsWord text.toList) : TokenSpelling (word text) text.toList
  | literal {q : Quote} {text : String} {pieces : List (List Char)}
      (chars : List.Forall₂ (CharSpelling q) text.toList pieces) :
      TokenSpelling ⟨text, some q⟩ (q.char :: (pieces.flatten ++ [q.char]))

/-- A bare word does not go on with these characters. -/
def EndsWord (cs : List Char) : Prop := ∀ c ∈ cs.head?, isWordChar c = false

/-- How a line of tokens may be written: blanks and commas wherever tokens do not run together without them, and a
comment in the end. -/
inductive LineSpelling : List Token → List Char → Prop
  | done : LineSpelling [] []
  | comment (text : List Char) : LineSpelling [] (commentMark :: text)
  | separator {ts : List Token} {c : Char} {cs : List Char} (separates : isSeparator c = true)
      (rest : LineSpelling ts cs) : LineSpelling ts (c :: cs)
  | token {t : Token} {ts : List Token} {cs more : List Char} (spelled : TokenSpelling t cs)
      (apart : t.quote = none → EndsWord more) (rest : LineSpelling ts more) : LineSpelling (t :: ts) (cs ++ more)

theorem unescape?_eq_some {mark c : Char} : unescape? mark = some c ↔ (mark, c) ∈ escapes := by
  unfold unescape? escapes
  split <;> simp_all [eq_comm]

theorem isWordChar_eq_false {c : Char} : isWordChar c = false ↔ c = commentMark ∨ isSeparator c = true := by
  by_cases mark : c = commentMark <;> simp [isWordChar, mark]

theorem endsWord_nil : EndsWord [] := by simp [EndsWord]

theorem endsWord_cons {c : Char} {cs : List Char} : EndsWord (c :: cs) ↔ c = commentMark ∨ isSeparator c = true := by
  simp [EndsWord, isWordChar_eq_false]

theorem not_mark_of_isSeparator {c : Char} (h : isSeparator c = true) : c ≠ commentMark := by
  rintro rfl
  exact absurd h (by decide)

/-! ## Writing -/

/-- A character of a literal, as it is written. -/
def spellChar (q : Quote) (c : Char) : List Char :=
  if c = '\n' then ['\\', 'n'] else if c = '\\' ∨ c = q.char then ['\\', c] else [c]

/-- A token, as it is written. -/
def Token.spell (t : Token) : List Char :=
  match t.quote with
  | none => t.text.toList
  | some q => q.char :: (t.text.toList.flatMap (spellChar q) ++ [q.char])

/-- A line of tokens with a blank between them. -/
def spellLine : List Token → List Char
  | [] => []
  | [t] => t.spell
  | t :: ts => t.spell ++ ' ' :: spellLine ts

/-- The text of lines of tokens. -/
def spellLines (ls : List (List Token)) : String := String.ofList (ls.flatMap fun ts => spellLine ts ++ ['\n'])

/-! ### Writing is spelling -/

theorem spellChar_spelling (q : Quote) (c : Char) : CharSpelling q c (spellChar q c) := by
  unfold spellChar
  split
  · rename_i feed
    subst feed
    exact .escaped (by decide)
  · split
    · rename_i special
      refine .escaped ?_
      rcases special with rfl | rfl
      · decide
      · cases q <;> decide
    · rename_i plain
      exact .plain (not_or.1 plain).2 (not_or.1 plain).1

theorem spell_spelling {t : Token} (h : t.Writable) : TokenSpelling t t.spell := by
  obtain ⟨text, _ | q⟩ := t
  · exact .word (h rfl)
  · show TokenSpelling _ (q.char :: ((text.toList.map (spellChar q)).flatten ++ [q.char]))
    exact .literal (List.forall₂_map_right_iff.2 (List.forall₂_same.2 fun c _ => spellChar_spelling q c))

theorem spellLine_spelling : ∀ {ts : List Token}, (∀ t ∈ ts, t.Writable) → LineSpelling ts (spellLine ts)
  | [], _ => .done
  | [t], h => by
    have spelled := LineSpelling.token (spell_spelling (h t (List.mem_singleton_self t))) (fun _ => endsWord_nil) .done
    rwa [List.append_nil] at spelled
  | t :: u :: ts, h => by
    obtain ⟨ht, hts⟩ := List.forall_mem_cons.1 h
    have blank : isSeparator ' ' = true := by decide
    exact .token (spell_spelling ht) (fun _ => endsWord_cons.2 (.inr blank)) (.separator blank (spellLine_spelling hts))

/-! ## Reading a line back -/

theorem scan_word {cs : List Char} (h : ∀ c ∈ cs, isWordChar c = true) (read rest : List Char) :
    scan (.word read) (cs ++ rest) = scan (.word (cs.reverse ++ read)) rest := by
  induction cs generalizing read with
  | nil => rfl
  | cons c cs ih =>
    obtain ⟨hc, hcs⟩ := List.forall_mem_cons.1 h
    obtain ⟨separator, mark⟩ : isSeparator c = false ∧ c ≠ commentMark := by simpa [isWordChar] using hc
    rw [List.cons_append, scan, if_neg mark, if_neg (by simp [separator]), ih hcs, List.reverse_cons, List.append_assoc]
    rfl

theorem scan_quote (q : Quote) (rest : List Char) : scan .between (q.char :: rest) = scan (.literal q []) rest := by
  cases q <;> rfl

theorem scan_bare {cs : List Char} (h : IsWord cs) (rest : List Char) :
    scan .between (cs ++ rest) = scan (.word cs.reverse) rest := by
  obtain ⟨ne, chars, head⟩ := h
  obtain ⟨c, cs, rfl⟩ := List.exists_cons_of_ne_nil ne
  obtain ⟨hc, hcs⟩ := List.forall_mem_cons.1 chars
  obtain ⟨separator, mark⟩ : isSeparator c = false ∧ c ≠ commentMark := by simpa [isWordChar] using hc
  rw [List.cons_append, scan, if_neg mark, if_neg (by simp [separator]), head c rfl, scan_word hcs]
  simp

/-- The scanner reads a character of a literal, however it is written. -/
theorem CharSpelling.scan {q : Quote} {c : Char} {cs : List Char} (h : CharSpelling q c cs) (read rest : List Char) :
    scan (.literal q read) (cs ++ rest) = Assembly.scan (.literal q (c :: read)) rest := by
  cases h with
  | @escaped mark _ escape =>
    have backslash : '\\' ≠ q.char := by cases q <;> decide
    simp [Assembly.scan, backslash, unescape?_eq_some.2 escape]
  | plain close backslash => simp [Assembly.scan, close, backslash]

theorem scan_pieces {q : Quote} {cs : List Char} {pieces : List (List Char)} (h : List.Forall₂ (CharSpelling q) cs pieces)
    (read rest : List Char) : scan (.literal q read) (pieces.flatten ++ q.char :: rest) =
      (scan .between rest).map (⟨String.ofList (read.reverse ++ cs), some q⟩ :: ·) := by
  induction h generalizing read with
  | nil => simp [scan]
  | cons char _ ih => rw [List.flatten_cons, List.append_assoc, char.scan, ih]; simp

/-- The scanner reads a bare word up to the end of the line or the next character that does not belong to it. -/
theorem scan_word_end {read more : List Char} (apart : EndsWord more) :
    scan (.word read) more = (scan .between more).map (⟨String.ofList read.reverse, none⟩ :: ·) := by
  cases more with
  | nil => rfl
  | cons c more =>
    rcases endsWord_cons.1 apart with rfl | separates
    · simp [scan, Except.map]
    · simp [scan, not_mark_of_isSeparator separates, separates]

theorem TokenSpelling.scan {t : Token} {cs more : List Char} (h : TokenSpelling t cs)
    (apart : t.quote = none → EndsWord more) : scan .between (cs ++ more) = (Assembly.scan .between more).map (t :: ·) := by
  cases h with
  | word bare =>
    rw [scan_bare bare, scan_word_end (apart rfl), List.reverse_reverse, String.ofList_toList]; rfl
  | @literal q text pieces chars =>
    rw [List.cons_append, List.append_assoc, scan_quote, List.singleton_append, scan_pieces chars, List.reverse_nil,
      List.nil_append, String.ofList_toList]

/-- A line is read back, however it is written. -/
theorem LineSpelling.tokenize {ts : List Token} {line : List Char} (h : LineSpelling ts line) :
    tokenize line = .ok ts := by
  show scan .between line = .ok ts
  induction h with
  | done => rfl
  | comment text => simp [scan]
  | separator separates _ ih => rw [scan, if_neg (not_mark_of_isSeparator separates), if_pos separates, ih]
  | token spelled apart _ ih => rw [spelled.scan apart, ih]; rfl

/-- A written line is read back. -/
theorem tokenize_spellLine {ts : List Token} (h : ∀ t ∈ ts, t.Writable) : tokenize (spellLine ts) = .ok ts :=
  (spellLine_spelling h).tokenize

/-! ## Only spellings are read -/

/-- What may be written after what the scanner has read, and the tokens that this and the rest of the line are. -/
inductive Mode.Spelling : Mode → List Token → List Char → Prop
  | between {ts : List Token} {cs : List Char} (rest : LineSpelling ts cs) : Spelling .between ts cs
  | word {read text more : List Char} {ts : List Token} (chars : ∀ c ∈ text, isWordChar c = true)
      (apart : EndsWord more) (rest : LineSpelling ts more) :
      Spelling (.word read) (Assembly.word (String.ofList (read.reverse ++ text)) :: ts) (text ++ more)
  | literal {q : Quote} {read text more : List Char} {pieces : List (List Char)} {ts : List Token}
      (chars : List.Forall₂ (CharSpelling q) text pieces) (rest : LineSpelling ts more) :
      Spelling (.literal q read) (⟨String.ofList (read.reverse ++ text), some q⟩ :: ts) (pieces.flatten ++ q.char :: more)
  | escape {q : Quote} {read : List Char} {mark c : Char} {ts : List Token} {more : List Char}
      (escape : (mark, c) ∈ escapes) (rest : Spelling (.literal q (c :: read)) ts more) :
      Spelling (.escape q read) ts (mark :: more)

theorem map_cons_ok {ε α : Type} {x : α} {r : Except ε (List α)} {ys : List α} :
    r.map (x :: ·) = .ok ys ↔ ∃ xs, r = .ok xs ∧ ys = x :: xs := by
  cases r <;> simp [Except.map, eq_comm]

theorem isWordChar_of_not {c : Char} (mark : c ≠ commentMark) (separates : ¬ isSeparator c = true) :
    isWordChar c = true := by simp [isWordChar, mark, separates]

theorem eq_char_of_quoteOf? {c : Char} {q : Quote} (h : quoteOf? c = some q) : c = q.char := by
  unfold quoteOf? at h
  split_ifs at h with double single <;> cases h <;> assumption

namespace Mode.Spelling

variable {q : Quote} {c : Char} {read cs piece : List Char} {ts : List Token}

/-- A character of a bare word before the rest of it. -/
theorem pushWord (char : isWordChar c = true) (h : Spelling (.word (c :: read)) ts cs) :
    Spelling (.word read) ts (c :: cs) := by
  cases h with
  | @word _ text more ts chars apart rest =>
    have pushed := @word read (c :: text) more ts (List.forall_mem_cons.2 ⟨char, chars⟩) apart rest
    simpa using pushed

/-- A character of a literal before the rest of it. -/
theorem pushLiteral (char : CharSpelling q c piece) (h : Spelling (.literal q (c :: read)) ts cs) :
    Spelling (.literal q read) ts (piece ++ cs) := by
  cases h with
  | @literal _ _ text more pieces ts chars rest =>
    have pushed := @literal q read (c :: text) more (piece :: pieces) ts (.cons char chars) rest
    simpa using pushed

/-- The end of a bare word. -/
theorem endWord (apart : EndsWord cs) (rest : LineSpelling ts cs) :
    Spelling (.word read) (⟨String.ofList read.reverse, none⟩ :: ts) cs := by
  have ended := @word read [] cs ts (List.forall_mem_nil _) apart rest
  simpa [Assembly.word] using ended

/-- The beginning of a bare word. -/
theorem openWord (char : isWordChar c = true) (quote : quoteOf? c = none) (h : Spelling (.word [c]) ts cs) :
    LineSpelling ts (c :: cs) := by
  cases h with
  | @word _ text more ts chars apart rest =>
    have bare : IsWord (String.ofList (c :: text)).toList := by
      rw [String.toList_ofList]
      exact ⟨List.cons_ne_nil _ _, List.forall_mem_cons.2 ⟨char, chars⟩, by simpa using quote⟩
    have spelled := LineSpelling.token (.word bare) (fun _ => apart) rest
    simpa using spelled

/-- The beginning of a literal. -/
theorem openLiteral (h : Spelling (.literal q []) ts cs) : LineSpelling ts (q.char :: cs) := by
  cases h with
  | @literal _ _ text more pieces ts chars rest =>
    rw [← @String.toList_ofList text] at chars
    have spelled := LineSpelling.token (.literal chars) nofun rest
    simpa using spelled

end Mode.Spelling

/-- Only spellings of tokens are read as these tokens. -/
theorem scan_spelling {mode : Mode} {cs : List Char} {ts : List Token} (h : scan mode cs = .ok ts) :
    mode.Spelling ts cs := by
  fun_induction scan mode cs generalizing ts with
  | case1 => cases h; exact .between .done
  | case2 cs => cases h; exact .between (.comment cs)
  | case3 c cs mark separates ih =>
    cases ih h with
    | between rest => exact .between (.separator separates rest)
  | case4 c cs mark separates q quote ih => exact eq_char_of_quoteOf? quote ▸ .between (ih h).openLiteral
  | case5 c cs mark separates quote ih => exact .between ((ih h).openWord (isWordChar_of_not mark separates) quote)
  | case6 read => cases h; exact .endWord endsWord_nil .done
  | case7 read cs => cases h; exact .endWord (endsWord_cons.2 (.inl rfl)) (.comment cs)
  | case8 read c cs mark separates ih =>
    obtain ⟨ts, ok, rfl⟩ := map_cons_ok.1 h
    cases ih ok with
    | between rest => exact .endWord (endsWord_cons.2 (.inr separates)) (.separator separates rest)
  | case9 read c cs mark separates ih => exact (ih h).pushWord (isWordChar_of_not mark separates)
  | case10 | case14 | case16 => cases h
  | case11 q read cs ih =>
    obtain ⟨ts, ok, rfl⟩ := map_cons_ok.1 h
    cases ih ok with
    | between rest =>
      have closed := @Mode.Spelling.literal q read [] cs [] ts .nil rest
      simpa using closed
  | case12 q read cs close ih =>
    cases ih h with
    | escape escape rest => exact rest.pushLiteral (.escaped escape)
  | case13 q read c cs close backslash ih => exact (ih h).pushLiteral (.plain close backslash)
  | case15 q read c cs d escape ih => exact .escape (unescape?_eq_some.1 escape) (ih h)

/-- A line is read as tokens if and only if it is a spelling of them. -/
theorem tokenize_eq_ok {line : List Char} {ts : List Token} : tokenize line = .ok ts ↔ LineSpelling ts line := by
  constructor
  · intro h
    cases scan_spelling h with
    | between rest => exact rest
  · exact LineSpelling.tokenize

/-! ## Lines -/

/-- The characters of a line: no line feed, and no carriage return in the end, which would belong to the line
feed after it. -/
def IsLine (cs : List Char) : Prop := '\n' ∉ cs ∧ cs.getLast? ≠ some '\r'

theorem lines_cons {c : Char} {cs line : List Char} {ls : List (List Char)} (feed : c ≠ '\n')
    (apart : c = '\r' → cs.head? ≠ some '\n') (h : lines cs = line :: ls) : lines (c :: cs) = (c :: line) :: ls := by
  rw [lines, h]
  · rintro rfl
    exact feed rfl
  · rintro more rfl rfl
    exact apart rfl rfl

theorem lines_line {cs : List Char} (h : IsLine cs) (rest : List Char) :
    lines (cs ++ '\n' :: rest) = cs :: lines rest := by
  induction cs with
  | nil => rfl
  | cons c cs ih =>
    obtain ⟨feed, last⟩ := h
    obtain ⟨hc, hcs⟩ : c ≠ '\n' ∧ '\n' ∉ cs := by
      rw [List.mem_cons, not_or] at feed
      exact ⟨Ne.symm feed.1, feed.2⟩
    have tail : IsLine cs := by
      refine ⟨hcs, fun h => last ?_⟩
      rw [List.getLast?_cons, h]; rfl
    refine lines_cons hc ?apart (ih tail)
    rintro rfl
    cases cs with
    | nil => exact absurd rfl last
    | cons d ds =>
      rintro ⟨⟩
      exact hcs (List.mem_cons_self ..)

theorem mem_spell {t : Token} (h : t.Writable) : '\n' ∉ t.spell := by
  obtain ⟨text, _ | q⟩ := t
  · intro mem
    exact not_lineFeed_of_isWordChar ((h rfl).2.1 _ mem) rfl
  · have quote : q.char ≠ '\n' := by cases q <;> decide
    have chars : ∀ c, '\n' ∉ spellChar q c := by
      intro c
      unfold spellChar
      split
      · decide
      · rename_i feed
        split <;> simp [Ne.symm feed]
    intro mem
    simp only [Token.spell, List.mem_cons, List.mem_append, List.mem_flatMap, List.not_mem_nil, or_false] at mem
    rcases mem with heq | ⟨c, -, hc⟩ | heq
    · exact quote heq.symm
    · exact chars c hc
    · exact quote heq.symm

theorem getLast?_spell {t : Token} (h : t.Writable) : ∃ c, t.spell.getLast? = some c ∧ c ≠ '\r' := by
  obtain ⟨text, _ | q⟩ := t
  · obtain ⟨ne, chars, -⟩ := h rfl
    refine ⟨_, List.getLast?_eq_getLast_of_ne_nil ne, not_return_of_isWordChar (chars _ (List.getLast_mem ne))⟩
  · refine ⟨q.char, ?_, by cases q <;> decide⟩
    show (q.char :: (_ ++ [q.char])).getLast? = _
    rw [List.getLast?_cons, List.getLast?_append]; rfl

theorem isLine_spellLine : ∀ {ts : List Token}, (∀ t ∈ ts, t.Writable) → IsLine (spellLine ts)
  | [], _ => ⟨List.not_mem_nil, nofun⟩
  | [t], h => by
    have ht := h t (List.mem_singleton_self t)
    obtain ⟨c, last, hc⟩ := getLast?_spell ht
    refine ⟨mem_spell ht, fun heq => hc ?_⟩
    rw [spellLine, last] at heq
    exact Option.some.inj heq
  | t :: u :: ts, h => by
    obtain ⟨ht, hts⟩ := List.forall_mem_cons.1 h
    obtain ⟨feed, last⟩ := isLine_spellLine hts
    constructor
    · show _ ∉ t.spell ++ ' ' :: spellLine (u :: ts)
      rw [List.mem_append, List.mem_cons]
      rintro (mem | heq | mem)
      · exact mem_spell ht mem
      · exact absurd heq (by decide)
      · exact feed mem
    · show (t.spell ++ ' ' :: spellLine (u :: ts)).getLast? ≠ _
      rw [List.getLast?_append, List.getLast?_cons]
      intro heq
      cases hl : (spellLine (u :: ts)).getLast? with
      | none => simp [hl] at heq
      | some c =>
        rw [hl] at heq last
        exact last heq

/-- The tokens of each line of a text. -/
def tokenLines (source : String) : Except SyntaxError (List (List Token)) := (lines source.toList).mapM tokenize

theorem lines_spellLines {ls : List (List Token)} (h : ∀ ts ∈ ls, ∀ t ∈ ts, t.Writable) :
    lines (spellLines ls).toList = ls.map spellLine := by
  unfold spellLines
  rw [String.toList_ofList]
  induction ls with
  | nil => rfl
  | cons ts ls ih =>
    obtain ⟨hts, hls⟩ := List.forall_mem_cons.1 h
    rw [List.flatMap_cons, List.append_assoc, List.singleton_append, lines_line (isLine_spellLine hts), ih hls]; rfl

/-- Written lines are read back. -/
theorem tokenLines_spellLines {ls : List (List Token)} (h : ∀ ts ∈ ls, ∀ t ∈ ts, t.Writable) :
    tokenLines (spellLines ls) = .ok ls := by
  unfold tokenLines
  rw [lines_spellLines h]
  induction ls with
  | nil => rfl
  | cons ts ls ih =>
    obtain ⟨hts, hls⟩ := List.forall_mem_cons.1 h
    rw [List.map_cons, List.mapM_cons, tokenize_spellLine hts, ih hls]; rfl

/-! ## What is read can be written -/

theorem TokenSpelling.writable {t : Token} {cs : List Char} (h : TokenSpelling t cs) : t.Writable := by
  cases h with
  | word bare => exact writable_word bare
  | literal chars => exact writable_literal _ _

theorem LineSpelling.writable {ts : List Token} {line : List Char} (h : LineSpelling ts line) :
    ∀ t ∈ ts, t.Writable := by
  induction h with
  | done | comment => exact List.forall_mem_nil _
  | separator _ _ ih => exact ih
  | token spelled _ _ ih => exact List.forall_mem_cons.2 ⟨spelled.writable, ih⟩

theorem tokenize_writable {line : List Char} {ts : List Token} (h : tokenize line = .ok ts) :
    ∀ t ∈ ts, t.Writable := (tokenize_eq_ok.1 h).writable

end SlotVM.Assembly
