/-
Texts that say the same in different ways. `spellings_read_alike`: a line is read as its tokens however it is written,
and two texts whose lines have the same tokens assemble to the same program, or neither assembles.
-/
import SlotVM.Proofs.Assembly.Assembles

namespace SlotVM.Assembly

open Text

/-! ## Texts -/

/-- What ends a line. -/
def lineEnds : List (List Char) := [['\n'], ['\r', '\n']]

/-- How a text may be written whose lines have these tokens: each line in any of its spellings, with its end. The last
line may do without. -/
inductive TextSpelling : List (List Token) → List Char → Prop
  | done : TextSpelling [] []
  | last {ts : List Token} {line : List Char} (spelled : LineSpelling ts line) (feed : '\n' ∉ line) :
      TextSpelling [ts] line
  | line {ts : List Token} {line ending rest : List Char} {ls : List (List Token)} (spelled : LineSpelling ts line)
      (feed : '\n' ∉ line) (ends : ending ∈ lineEnds) (more : TextSpelling ls rest) :
      TextSpelling (ts :: ls) (line ++ ending ++ rest)

/-! ## Line ends -/

theorem TokenSpelling.getLast?_ne_return {t : Token} {cs : List Char} (h : TokenSpelling t cs) :
    cs.getLast? ≠ some '\r' := by
  intro last
  cases h with
  | word bare => exact not_return_of_isWordChar (bare.2.1 _ (List.mem_of_getLast? last)) rfl
  | @literal q text pieces chars =>
    rw [← List.cons_append, List.getLast?_concat] at last
    cases q <;> exact absurd last (by decide)

/-- A carriage return in the end of a line separates tokens, or belongs to a comment. -/
theorem LineSpelling.dropReturn {ts : List Token} {cs : List Char} (h : LineSpelling ts (cs ++ ['\r'])) :
    LineSpelling ts cs := by
  generalize whole : cs ++ ['\r'] = line at h
  induction h generalizing cs with
  | done => simp at whole
  | comment text =>
    cases cs with
    | nil => simp [commentMark] at whole
    | cons c cs =>
      cases whole
      exact .comment cs
  | separator separates rest ih =>
    cases cs with
    | nil =>
      cases whole
      exact rest
    | cons c cs =>
      cases whole
      exact .separator separates (ih rfl)
  | @token t ts piece more spelled apart rest ih =>
    rcases List.eq_nil_or_concat' more with rfl | ⟨more, c, rfl⟩
    · rw [List.append_nil] at whole
      exact absurd (by rw [← whole, List.getLast?_concat]) spelled.getLast?_ne_return
    · rw [← List.append_assoc] at whole
      obtain ⟨rfl, same⟩ := List.append_inj' whole rfl
      cases same
      refine .token spelled (fun bare => ?_) (ih rfl)
      cases more with
      | nil => exact endsWord_nil
      | cons d more => exact endsWord_cons.2 (endsWord_cons.1 (apart bare))

theorem lines_last {cs : List Char} (feed : '\n' ∉ cs) (ne : cs ≠ []) : lines cs = [cs] := by
  induction cs with
  | nil => exact absurd rfl ne
  | cons c cs ih =>
    rw [List.mem_cons, not_or] at feed
    cases cs with
    | nil =>
      rw [lines]
      · rfl
      · exact Ne.symm feed.1
      · rintro _ _ ⟨⟩
    | cons d cs =>
      refine lines_cons (Ne.symm feed.1) (fun _ => ?_) (ih feed.2 (List.cons_ne_nil _ _))
      rintro ⟨⟩
      exact feed.2 (List.mem_cons_self ..)

theorem lines_return {cs : List Char} (feed : '\n' ∉ cs) (rest : List Char) :
    lines (cs ++ '\r' :: '\n' :: rest) = cs :: lines rest := by
  induction cs with
  | nil => rfl
  | cons c cs ih =>
    rw [List.mem_cons, not_or] at feed
    refine lines_cons (Ne.symm feed.1) (fun _ => ?_) (ih feed.2)
    cases cs with
    | nil => simp
    | cons d cs =>
      rintro ⟨⟩
      exact feed.2 (List.mem_cons_self ..)

/-- A line is found before its end. If it ends in a carriage return of its own, that is taken for a part of the end. -/
theorem LineSpelling.lines_append {ts : List Token} {line ending : List Char} (h : LineSpelling ts line)
    (feed : '\n' ∉ line) (ends : ending ∈ lineEnds) (rest : List Char) :
    ∃ line', lines (line ++ ending ++ rest) = line' :: lines rest ∧ LineSpelling ts line' := by
  have ends : ending = ['\n'] ∨ ending = ['\r', '\n'] := by simpa [lineEnds] using ends
  rcases ends with rfl | rfl
  · by_cases last : line.getLast? = some '\r'
    · obtain ⟨cs, rfl⟩ := List.getLast?_eq_some_iff.1 last
      have feed : '\n' ∉ cs := fun mem => feed (List.mem_append_left _ mem)
      refine ⟨cs, ?_, h.dropReturn⟩
      simpa using lines_return feed rest
    · refine ⟨line, ?_, h⟩
      simpa using lines_line ⟨feed, last⟩ rest
  · refine ⟨line, ?_, h⟩
    simpa using lines_return feed rest

/-! ## Reading -/

/-- A text is read as the tokens of its lines, but for lines without tokens. -/
theorem TextSpelling.tokenLines {ls : List (List Token)} {cs : List Char} (h : TextSpelling ls cs) :
    ∃ ls', (lines cs).mapM tokenize = .ok ls' ∧ ls'.filter (!·.isEmpty) = ls.filter (!·.isEmpty) := by
  induction h with
  | done => exact ⟨[], rfl, rfl⟩
  | @last ts line spelled feed =>
    cases line with
    | nil =>
      have blank : ts = [] := by simpa [tokenize, scan] using spelled.tokenize.symm
      subst blank
      exact ⟨[], rfl, rfl⟩
    | cons c cs =>
      rw [lines_last feed (List.cons_ne_nil _ _)]
      exact ⟨[ts], mapM_eq_ok_iff.2 (.cons spelled.tokenize .nil), rfl⟩
  | @line ts line ending rest ls spelled feed ends _ ih =>
    obtain ⟨ls', read, filled⟩ := ih
    obtain ⟨line', split, spelled'⟩ := spelled.lines_append feed ends rest
    refine ⟨ts :: ls', ?_, ?_⟩
    · rw [split, mapM_eq_ok_iff]
      exact .cons spelled'.tokenize (mapM_eq_ok_iff.1 read)
    · simp only [List.filter_cons, filled]

variable {source source' : String} {ls ls' : List (List Token)}

/-- The layout of a text is that of its lines. -/
theorem Layout.of_lines {ts : List FunctionText} (h : Layout source ts) (read : tokenLines source = .ok ls)
    (read' : tokenLines source' = .ok ls') (same : ls.filter (!·.isEmpty) = ls'.filter (!·.isEmpty)) :
    Layout source' ts := by
  obtain ⟨lines, read'', filled⟩ := h.lines
  cases read.symm.trans read''
  exact ⟨⟨ls', read', same ▸ filled⟩, h.nonempty, h.names, h.params, h.sound⟩

/-- What a text assembles to depends on the tokens of its lines. -/
theorem assemble_ok_congr (read : tokenLines source = .ok ls) (read' : tokenLines source' = .ok ls')
    (same : ls.filter (!·.isEmpty) = ls'.filter (!·.isEmpty)) (p : Program) :
    assemble source = .ok p ↔ assemble source' = .ok p := by
  rw [assemble_ok_iff, assemble_ok_iff]
  constructor
  · rintro ⟨ts, layout, means⟩
    exact ⟨ts, layout.of_lines read read' same, means⟩
  · rintro ⟨ts, layout, means⟩
    exact ⟨ts, layout.of_lines read' read same.symm, means⟩

theorem toOption_congr {ε ε' α : Type} {r : Except ε α} {r' : Except ε' α} (h : ∀ a, r = .ok a ↔ r' = .ok a) :
    r.toOption = r'.toOption := by
  cases r <;> cases r' <;> simp_all [Except.toOption]

/-- A line is read as its tokens, however it is written, and is read as no others. Texts whose lines have the same
tokens, but for lines without tokens, assemble to the same program, or both fail. -/
theorem spellings_read_alike : (∀ ts line, tokenize line = .ok ts ↔ LineSpelling ts line) ∧
    ∀ {ls ls' : List (List Token)} {source source' : String}, TextSpelling ls source.toList →
      TextSpelling ls' source'.toList → ls.filter (!·.isEmpty) = ls'.filter (!·.isEmpty) →
      (assemble source).toOption = (assemble source').toOption := by
  refine ⟨fun ts line => tokenize_eq_ok, fun spelled spelled' same => ?_⟩
  obtain ⟨read, ok, filled⟩ := spelled.tokenLines
  obtain ⟨read', ok', filled'⟩ := spelled'.tokenLines
  exact toOption_congr (assemble_ok_congr ok ok' (filled.trans (same.trans filled'.symm)))

/-- The tokens of the lines of a text. -/
def stringLines : List (List Token) :=
  [[word "fn", word "main", word "0"], [word "string", word "r0", ⟨"\"'#\n", some .double⟩], [word "return", word "r0"],
    [word "end"]]

/-- The text of these lines with a blank between tokens. -/
def plainText : String := "fn main 0\nstring r0 \"\\\"'#\\n\"\nreturn r0\nend\n"

/-- A text of these lines with empty lines, commas, comments that touch a token, an escape that is not needed, carriage
returns, and a last line without an end. -/
def roughText : String := "# text\r\n\r\n,fn main,,0#c\r\n\tstring, r0 \"\\\"\\'#\\n\"# \"\nreturn r0\r\r\n end"

/-- The program that they assemble to. -/
def stringProgram : Program := ⟨#[⟨"main", 0, #[.assign 0 (.string "\"'#\n"), .ret 0]⟩]⟩

set_option maxRecDepth 4000 in
theorem spellings_read_alike_rough : TextSpelling stringLines plainText.toList ∧
    TextSpelling ([] :: [] :: stringLines) roughText.toList ∧ assemble plainText = .ok stringProgram ∧
    (assemble plainText).toOption = (assemble roughText).toOption := by
  have plain : TextSpelling stringLines plainText.toList := by
    refine @TextSpelling.line _ "fn main 0".toList ['\n'] _ _ (tokenize_eq_ok.1 rfl) (by decide) (by decide) ?_
    refine @TextSpelling.line _ "string r0 \"\\\"'#\\n\"".toList ['\n'] _ _ (tokenize_eq_ok.1 rfl) (by decide)
      (by decide) ?_
    refine @TextSpelling.line _ "return r0".toList ['\n'] _ _ (tokenize_eq_ok.1 rfl) (by decide) (by decide) ?_
    exact @TextSpelling.line _ "end".toList ['\n'] _ _ (tokenize_eq_ok.1 rfl) (by decide) (by decide) .done
  have rough : TextSpelling ([] :: [] :: stringLines) roughText.toList := by
    refine @TextSpelling.line _ "# text".toList ['\r', '\n'] _ _ (tokenize_eq_ok.1 rfl) (by decide) (by decide) ?_
    refine @TextSpelling.line _ [] ['\r', '\n'] _ _ (tokenize_eq_ok.1 rfl) (by decide) (by decide) ?_
    refine @TextSpelling.line _ ",fn main,,0#c".toList ['\r', '\n'] _ _ (tokenize_eq_ok.1 rfl) (by decide) (by decide) ?_
    refine @TextSpelling.line _ "\tstring, r0 \"\\\"\\'#\\n\"# \"".toList ['\n'] _ _ (tokenize_eq_ok.1 rfl) (by decide)
      (by decide) ?_
    refine @TextSpelling.line _ "return r0\r".toList ['\r', '\n'] _ _ (tokenize_eq_ok.1 rfl) (by decide) (by decide) ?_
    exact @TextSpelling.last _ " end".toList (tokenize_eq_ok.1 rfl) (by decide)
  refine ⟨plain, rough, ?_, spellings_read_alike.2 plain rough rfl⟩
  rw [assemble_eq]; rfl

end SlotVM.Assembly
