/-
Lines that are refused while the functions of a text are read: heads and ends out of their place, instructions outside
of functions, heads that open no function, and labels that are defined twice. `Progress.Reads.verdict`: a line is refused
if and only if the lines before it say so, and the error has its number unless a literal stands in a head.
-/
import SlotVM.Proofs.Assembly.Layout

namespace SlotVM.Assembly

open Decimal Text

/-! ## Lines that are refused -/

/-- Whether a line is the head of a function. -/
def isHead : List Token → Bool
  | [] => false
  | first :: _ => first = word "fn"

/-- After these lines a function is open, and `body` are its lines so far: they follow its head, and neither a head
nor an end is among them. -/
def OpenWith (before body : List (List Token)) : Prop :=
  ∃ earlier operands, before = earlier ++ (word "fn" :: operands) :: body ∧
    ∀ line ∈ body, isHead line = false ∧ line ≠ [word "end"]

/-- The operands of a head that opens a function: a name that no function before it has, and a number of parameters. -/
def OpensFunction (before : List (List Token)) (operands : List Token) : Prop :=
  ∃ name params, operands = [word name, word params] ∧ (unsigned? params).isSome ∧
    ∀ params', [word "fn", word name, word params'] ∉ before

/-- A line that is misplaced or malformed after the lines before it. -/
inductive Refused (before : List (List Token)) : List Token → Prop
  /-- A head inside of a function. -/
  | inside {operands : List Token} {body : List (List Token)} (opened : OpenWith before body) :
      Refused before (word "fn" :: operands)
  /-- An end, a label or an instruction outside of functions. -/
  | outside {line : List Token} (closed : ∀ body, ¬ OpenWith before body) (filled : line ≠ [])
      (plain : isHead line = false) : Refused before line
  /-- A head that opens no function. -/
  | head {operands : List Token} (closed : ∀ body, ¬ OpenWith before body) (malformed : ¬ OpensFunction before operands) :
      Refused before (word "fn" :: operands)
  /-- A label that its function has already. -/
  | labelTwice {line : List Token} {name : String} {body : List (List Token)} (opened : OpenWith before body)
      (label : line = [word (name ++ ":")]) (named : name ≠ "") (twice : line ∈ body) : Refused before line

/-- A head with a literal for the name or the number of parameters, where it is the first thing that is wrong. -/
inductive LiteralHead (before : List (List Token)) : List Token → Prop
  | params {name params : Token} (closed : ∀ body, ¬ OpenWith before body) (literal : params.quote ≠ none) :
      LiteralHead before [word "fn", name, params]
  | name {name : Token} {params : String} (closed : ∀ body, ¬ OpenWith before body) (literal : name.quote ≠ none)
      (number : (unsigned? params).isSome) : LiteralHead before [word "fn", name, word params]

theorem isHead_iff {line : List Token} : isHead line = true ↔ ∃ operands, line = word "fn" :: operands := by
  cases line <;> simp [isHead]

theorem Inside.not_isHead {line : List Token} (h : Inside line) : isHead line = false := by
  rw [Bool.eq_false_iff]
  intro head
  obtain ⟨operands, rfl⟩ := isHead_iff.1 head
  exact h.not_head operands rfl

theorem LiteralHead.refused {before : List (List Token)} {line : List Token} (h : LiteralHead before line) :
    Refused before line := by
  cases h with
  | params closed literal =>
    refine .head closed ?_
    rintro ⟨_, _, ⟨⟩, -, -⟩
    exact literal rfl
  | name closed literal number =>
    refine .head closed ?_
    rintro ⟨_, _, ⟨⟩, -, -⟩
    exact literal rfl

/-! ### The function that is open -/

theorem OpenWith.unique {before body body' : List (List Token)} (h : OpenWith before body) (h' : OpenWith before body') :
    body = body' := by
  obtain ⟨earlier, operands, rfl, inside⟩ := h
  obtain ⟨earlier', operands', split, inside'⟩ := h'
  obtain ⟨more, rfl, tail⟩ | ⟨more, rfl, tail⟩ := List.append_eq_append_iff.1 split
  · cases more with
    | nil => cases tail; rfl
    | cons line more =>
      cases tail
      have head := (inside (word "fn" :: operands') (by simp)).1
      simp [isHead] at head
  · cases more with
    | nil => cases tail; rfl
    | cons line more =>
      cases tail
      have head := (inside' (word "fn" :: operands) (by simp)).1
      simp [isHead] at head

/-- After an end no function is open. -/
theorem not_openWith_end (before body : List (List Token)) : ¬ OpenWith (before ++ [[word "end"]]) body := by
  rintro ⟨earlier, operands, split, inside⟩
  rcases List.eq_nil_or_concat' body with rfl | ⟨body, last, rfl⟩
  · obtain ⟨-, same⟩ := List.append_inj' split rfl
    simp [word] at same
  · rw [← List.cons_append, ← List.append_assoc] at split
    obtain ⟨-, same⟩ := List.append_inj' split rfl
    cases same
    exact (inside _ (List.mem_append_right _ (List.mem_singleton_self _))).2 rfl

/-- Inside of a function, heads are refused and labels that are defined. -/
theorem refused_open {before body : List (List Token)} {line : List Token} (opened : OpenWith before body) :
    Refused before line ↔ isHead line = true ∨ (definedLabel? line).isSome ∧ line ∈ body := by
  constructor
  · intro refused
    cases refused with
    | inside => exact .inl (isHead_iff.2 ⟨_, rfl⟩)
    | outside closed | head closed => exact absurd opened (closed _)
    | labelTwice opened' label named twice =>
      refine .inr ⟨?_, opened'.unique opened ▸ twice⟩
      rw [definedLabel?_eq_some.2 ⟨label, named⟩]; rfl
  · rintro (head | ⟨label, twice⟩)
    · obtain ⟨operands, rfl⟩ := isHead_iff.1 head
      exact .inside opened
    · obtain ⟨name, defined⟩ := Option.isSome_iff_exists.1 label
      obtain ⟨label, named⟩ := definedLabel?_eq_some.1 defined
      exact .labelTwice opened label named twice

/-- Outside of functions, all lines are refused but empty ones and heads that open a function. -/
theorem refused_closed {before : List (List Token)} {line : List Token} (closed : ∀ body, ¬ OpenWith before body) :
    Refused before line ↔ line ≠ [] ∧ ∀ operands, line = word "fn" :: operands → ¬ OpensFunction before operands := by
  constructor
  · intro refused
    cases refused with
    | inside opened | labelTwice opened => exact absurd opened (closed _)
    | outside _ filled plain =>
      refine ⟨filled, fun operands head => ?_⟩
      rw [isHead_iff.2 ⟨operands, head⟩] at plain
      cases plain
    | head _ malformed =>
      refine ⟨List.cons_ne_nil _ _, ?_⟩
      rintro _ ⟨⟩
      exact malformed
  · rintro ⟨filled, heads⟩
    cases plain : isHead line with
    | false => exact .outside closed filled plain
    | true =>
      obtain ⟨operands, rfl⟩ := isHead_iff.1 plain
      exact .head closed (heads operands rfl)

variable {ts : List FunctionText} {t : FunctionText}

theorem openWith_open (sound : t.Sound) (ts : List FunctionText) : OpenWith (linesRead ts (some t)) t.body :=
  ⟨_, _, rfl, fun line mem => ⟨(sound.inside line mem).not_isHead, (sound.inside line mem).not_end⟩⟩

theorem not_openWith_closed (ts : List FunctionText) (body : List (List Token)) : ¬ OpenWith (linesRead ts none) body := by
  rcases List.eq_nil_or_concat' ts with rfl | ⟨ts, t, rfl⟩
  · rintro ⟨earlier, operands, split, -⟩
    simp [linesRead] at split
  · have last : linesRead (ts ++ [t]) none = ts.flatMap FunctionText.lines ++ t.opening ++ [[word "end"]] := by
      simp [linesRead, FunctionText.lines]
    rw [last]
    exact not_openWith_end _ body

/-- The heads among the lines of functions are those of the functions. -/
theorem head_mem_lines (sound : t.Sound) {name params : String} :
    [word "fn", word name, word params] ∈ t.lines ↔ name = t.name ∧ params = t.params := by
  have body : [word "fn", word name, word params] ∉ t.body := fun mem => (sound.inside _ mem).not_head _ rfl
  simp only [word] at body
  simp [FunctionText.lines, FunctionText.opening, body, word]

theorem taken_iff (sound : ∀ t ∈ ts, t.Sound) {name : String} :
    (∀ params, [word "fn", word name, word params] ∉ linesRead ts none) ↔ name ∉ ts.map FunctionText.name := by
  have mem (params : String) : [word "fn", word name, word params] ∈ linesRead ts none ↔
      ∃ t ∈ ts, name = t.name ∧ params = t.params := by
    simp only [linesRead, Option.map_none, Option.getD_none, List.append_nil, List.mem_flatMap]
    exact exists_congr fun t => and_congr_right fun ht => head_mem_lines (sound t ht)
  simp only [mem, List.mem_map]
  constructor
  · rintro free ⟨t, ht, rfl⟩
    exact free t.params ⟨t, ht, rfl, rfl⟩
  · rintro free params ⟨t, ht, rfl, -⟩
    exact free ⟨t, ht, rfl⟩

/-- A label is defined if and only if the line that defines it is there. -/
theorem label_mem_iff {line : List Token} {name : String} (defined : definedLabel? line = some name) :
    name ∈ t.labels.map Prod.fst ↔ line ∈ t.body := by
  obtain ⟨rfl, named⟩ := definedLabel?_eq_some.1 defined
  rw [List.mem_map, Prod.exists]
  constructor
  · rintro ⟨_, k, mem, rfl⟩
    obtain ⟨before, line, after, body, label, -⟩ := mem_labelsFrom.1 mem
    obtain ⟨rfl, -⟩ := definedLabel?_eq_some.1 label
    simp [body]
  · intro mem
    obtain ⟨before, after, body⟩ := List.append_of_mem mem
    exact ⟨name, _, mem_labelsFrom.2 ⟨before, _, after, body, defined, rfl⟩, rfl⟩

/-! ### Taking lines in -/

/-- What becomes of a line: it is taken in, or it is refused with an error that gives its number, but for literals in
a head. -/
inductive Verdict (before : List (List Token)) (n : Nat) (line : List Token) : Except AssemblyError Progress → Prop
  | taken {q : Progress} (fits : ¬ Refused before line) : Verdict before n line (.ok q)
  | numbered {error : SyntaxError} (refused : Refused before line) (plain : ¬ LiteralHead before line) :
      Verdict before n line (.error ⟨some n, error⟩)
  | unnumbered {text : String} (literal : LiteralHead before line) :
      Verdict before n line (.error ⟨none, .unexpectedLiteral text⟩)

theorem not_literalHead {before : List (List Token)} {line : List Token} (h : ∀ operands, line ≠ word "fn" :: operands) :
    ¬ LiteralHead before line := by
  rintro (_ | _)
  all_goals exact h _ rfl

namespace Progress.Reads

variable {p : Progress}

/-- A head where no function is open. -/
theorem openBlock_verdict (h : p.Reads ts none) (n : Nat) (operands : List Token) :
    Verdict (linesRead ts none) n (word "fn" :: operands) (p.openBlock n operands) := by
  have closed := not_openWith_closed ts
  have current := h.current_none
  have free (name : String) : (∀ params, [word "fn", word name, word params] ∉ linesRead ts none) ↔
      ¬ p.closed.any (·.name == name) = true := by
    have sound : ∀ t ∈ ts, t.Sound := fun t mem => by
      obtain ⟨b, -, hb⟩ := exists_of_forall₂ h.closed.flip t mem
      exact hb.sound
    rw [taken_iff sound, ← h.fresh_iff]
    simp
  match operands with
  | [] | [_] | _ :: _ :: _ :: _ =>
    obtain ⟨_, _⟩ := p
    cases current
    refine .numbered (.head closed ?_) nofun
    rintro ⟨_, _, ⟨⟩, -⟩
  | [name, ⟨params, some q⟩] =>
    obtain ⟨_, _⟩ := p
    cases current
    exact .unnumbered (.params closed nofun)
  | [⟨name, quote⟩, ⟨params, none⟩] =>
    cases number : unsigned? params with
    | none =>
      have error : p.openBlock n [⟨name, quote⟩, ⟨params, none⟩] = .error ⟨some n, .paramCount params⟩ := by
        simp [openBlock, current, Token.bare, atNoLine, number, atLine, bind, Except.bind]
      rw [error]
      refine .numbered (.head closed ?_) ?_
      · rintro ⟨_, _, ⟨⟩, numeral, -⟩
        simp [number] at numeral
      · intro literal
        cases literal with
        | params _ quoted => exact quoted rfl
        | name _ _ numeral => simp [number] at numeral
    | some count =>
      cases quote with
      | some q =>
        have error : p.openBlock n [⟨name, some q⟩, ⟨params, none⟩] = .error ⟨none, .unexpectedLiteral name⟩ := by
          simp [openBlock, current, Token.bare, atNoLine, number, atLine, bind, Except.bind]
        rw [error]
        exact .unnumbered (.name closed nofun (number ▸ rfl))
      | none =>
        have plain : ¬ LiteralHead (linesRead ts none) [word "fn", word name, word params] := by
          intro literal
          cases literal with
          | params _ quoted | name _ quoted _ => exact quoted rfl
        show Verdict _ n [word "fn", word name, word params] (p.openBlock n [word name, word params])
        rw [openBlock_words current number]
        split
        · rename_i taken
          refine .numbered (.head closed ?_) plain
          rintro ⟨_, _, ⟨⟩, -, fresh⟩
          exact (free name).1 fresh taken
        · rename_i fresh
          have heads : OpensFunction (linesRead ts none) [word name, word params] :=
            ⟨name, params, rfl, number ▸ rfl, (free name).2 fresh⟩
          exact .taken fun refused => ((refused_closed closed).1 refused).2 _ rfl heads

/-- What becomes of a line is decided by the lines before it. -/
theorem verdict {o : Option FunctionText} (h : p.Reads ts o) (n : Nat) (line : List Token) :
    Verdict (linesRead ts o) n line (p.addTokens ⟨n, line⟩) := by
  cases o with
  | none =>
    have closed := not_openWith_closed ts
    rcases lineForm_cases line with rfl | ⟨operands, rfl⟩ | rfl | inside
    · exact .taken fun refused => ((refused_closed closed).1 refused).1 rfl
    · exact h.openBlock_verdict n operands
    · rw [addTokens_outside (.inr rfl) h.current_none]
      exact .numbered (.outside closed (List.cons_ne_nil _ _) rfl) (not_literalHead (by simp [word]))
    · rw [addTokens_outside (.inl inside) h.current_none]
      exact .numbered (.outside closed inside.ne_nil inside.not_isHead) (not_literalHead inside.not_head)
  | some t =>
    obtain ⟨b, current, reads⟩ := h.current_some
    have opened := openWith_open reads.sound ts
    rcases lineForm_cases line with rfl | ⟨operands, rfl⟩ | rfl | inside
    · refine .taken fun refused => ?_
      simpa [isHead, definedLabel?] using (refused_open opened).1 refused
    · have error : p.addTokens ⟨n, word "fn" :: operands⟩ = .error ⟨some n, .openFunction b.name⟩ := by
        obtain ⟨_, _⟩ := p
        cases current; rfl
      rw [error]
      refine .numbered (.inside opened) fun literal => ?_
      cases literal with
      | params closed | name closed => exact closed _ opened
    · rw [addTokens_end current]
      refine .taken fun refused => ?_
      rcases (refused_open opened).1 refused with head | ⟨-, mem⟩
      · simp [isHead, word] at head
      · exact (reads.sound.inside _ mem).not_end rfl
    · have plain : ¬ LiteralHead (linesRead ts (some t)) line := not_literalHead inside.not_head
      rw [addTokens_inside inside current]
      cases defined : definedLabel? line with
      | none =>
        refine .taken fun refused => ?_
        simpa [inside.not_isHead, defined] using (refused_open opened).1 refused
      | some name =>
        have twice : (b.labels.lookup name).isSome = true ↔ line ∈ t.body := by
          rw [reads.lookup, label_mem_iff defined]
        dsimp only
        split
        · rename_i taken
          exact .numbered ((refused_open opened).2 (.inr ⟨defined ▸ rfl, twice.1 taken⟩)) plain
        · rename_i fresh
          refine .taken fun refused => ?_
          rcases (refused_open opened).1 refused with head | ⟨-, mem⟩
          · simp [inside.not_isHead] at head
          · exact fresh (twice.2 mem)

end Progress.Reads

end SlotVM.Assembly
