/-
Instructions written as lines of program text, and what it takes that they can be read. `statement_line`: a line
that is written is read as the instruction that it was written for.
-/
import SlotVM.Proofs.Assembly.Numerals
import SlotVM.Proofs.Assembly.Operands

namespace SlotVM.Assembly

open Decimal Text

/-! ## Operands -/

/-- A slot, as an operand. -/
def slotToken (r : Nat) : Token := word ("r" ++ toString r)

/-- A constant, as an operand. -/
def constToken (c : Nat) : Token := word ("c" ++ toString c)

/-- A number, as an operand. -/
def numberToken (n : Nat) : Token := word (toString n)

/-- A function, as an operand. -/
def functionToken (id : Nat) : Token := word ("@" ++ toString id)

/-- A field of a record with its slot, as an operand. -/
def fieldToken (field : String × Nat) : Token := word (field.1 ++ "=r" ++ toString field.2)

/-- The name of a field: a bare word or nothing, without the sign that ends it. -/
def IsFieldName (name : String) : Prop := (name = "" ∨ IsWord name.toList) ∧ '=' ∉ name.toList

instance (name : String) : Decidable (IsFieldName name) := by unfold IsFieldName; infer_instance

section Reading
variable {n : Nat} (h : n < unsignedLimit)
include h

theorem marked?_toString {mark : Char} {text : String} (first : text.toList = [mark]) :
    marked? mark (text ++ toString n) = some n := by
  rw [marked?, String.toList_append, first, List.singleton_append]
  dsimp only
  rw [if_pos rfl, String.ofList_toList, unsigned?_toString h]

theorem refOf_toString : refOf ("r" ++ toString n) = .ok n := by
  rw [refOf, marked?_toString h rfl]; rfl

theorem ref_slotToken : ref (slotToken n) = .ok n := refOf_toString h

theorem const_constToken : const (constToken n) = .ok n := by
  show orError _ (marked? 'c' ("c" ++ toString n)) = _
  rw [marked?_toString h rfl]; rfl

theorem natural_numberToken : natural (numberToken n) = .ok n := by
  show orError _ (unsigned? (toString n)) = _
  rw [unsigned?_toString h]; rfl

theorem target_numberToken (names : Names) : names.target (numberToken n) = .ok n := by
  rw [numberToken, target_word, unsigned?_toString h]; rfl

theorem function_functionToken (names : Names) : names.function (functionToken n) = .ok n := by
  rw [functionToken, function_word, unsigned?_toString h]; rfl

theorem field_fieldToken {name : String} (sign : '=' ∉ name.toList) : field (fieldToken (name, n)) = .ok (name, n) := by
  have chars : (name ++ "=r" ++ toString n).toList = name.toList ++ '=' :: ("r" ++ toString n).toList := by
    simp only [String.toList_append, List.append_assoc]; rfl
  have before : ∀ c ∈ name.toList, decide (c ≠ '=') = true := by
    intro c mem
    rw [decide_eq_true_eq]
    rintro rfl
    exact sign mem
  have cut : (name ++ "=r" ++ toString n).toList.takeWhile (· ≠ '=') = name.toList ∧
      (name ++ "=r" ++ toString n).toList.dropWhile (· ≠ '=') = '=' :: ("r" ++ toString n).toList := by
    rw [chars, List.takeWhile_append_of_pos before, List.dropWhile_append_of_pos before]
    simp
  rw [field, fieldToken, word_bare]
  dsimp only [bind, Except.bind]
  rw [cut.1, cut.2]
  dsimp only
  rw [String.ofList_toList, String.ofList_toList, refOf_toString h]; rfl

end Reading

theorem refs_slotTokens {rs : List Nat} (h : ∀ r ∈ rs, r < unsignedLimit) : refs (rs.map slotToken) = .ok rs := by
  rw [refs, mapM_eq_ok_iff, List.forall₂_map_left_iff, List.forall₂_same]
  exact fun r mem => ref_slotToken (h r mem)

theorem fields_fieldTokens {fs : List (String × Nat)} (slots : ∀ p ∈ fs, p.2 < unsignedLimit)
    (names : ∀ p ∈ fs, IsFieldName p.1) : (fs.map fieldToken).mapM field = .ok fs := by
  rw [mapM_eq_ok_iff, List.forall₂_map_left_iff, List.forall₂_same]
  exact fun p mem => field_fieldToken (slots p mem) (names p mem).2

theorem integer_word (n : Int64) : integer (word (toString n.toInt)) = .ok n := by
  show orError _ (signed? (toString n.toInt)) = _
  rw [signed?_toString]; rfl

theorem float_word {text : String} {x : Float} (h : float? text = some x) : float (word text) = .ok x := by
  show orError _ (float? text) = _
  rw [h]; rfl

theorem bool_word (b : Bool) : bool (word (toString b)) = .ok b := by cases b <;> rfl

theorem char_literal (c : Char) : char ⟨String.singleton c, some .single⟩ = .ok c := by
  simp [char]

theorem operator_word (op : OperatorKey) : operator op.fixity (word op.symbol.text) = .ok op := by
  obtain ⟨symbol, fixity⟩ := op
  cases symbol <;> rfl

theorem catchType_word (type : CatchType) : catchType (word type.name) = .ok type := by
  cases type with
  | any => rfl
  | kind k => cases k <;> rfl

/-! ## Try constructs -/

/-- A catch clause, as operands. -/
def clauseTokens (c : CatchClause) : List Token := [word "catch", word c.type.name, numberToken c.handler]

/-- A finally clause, if there is one, as operands. -/
def rangeTokens : Option Span → List Token
  | none => []
  | some s => [word "finally", numberToken s.start, numberToken s.stop]

/-- The clauses of a try construct in their order, the finally clause after `place` of the others. -/
def tryTokens (place : Nat) (catches : List CatchClause) (cleanup : Option Span) : List Token :=
  (catches.take place).flatMap clauseTokens ++ (rangeTokens cleanup ++ (catches.drop place).flatMap clauseTokens)

section
variable {names : Names} {catches : List CatchClause} {cleanup : Option Span}

theorem clauses_clauseTokens {more : List CatchClause} (h : ∀ c ∈ more, c.handler < unsignedLimit) (rest : List Token) :
    names.clauses catches cleanup (more.flatMap clauseTokens ++ rest) = names.clauses (catches ++ more) cleanup rest := by
  induction more generalizing catches with
  | nil => rw [List.append_nil]; rfl
  | cons c more ih =>
    obtain ⟨hc, hmore⟩ := List.forall_mem_cons.1 h
    rw [List.flatMap_cons, List.append_assoc]
    show names.clauses catches cleanup (word "catch" :: word c.type.name :: numberToken c.handler ::
      (more.flatMap clauseTokens ++ rest)) = _
    rw [clauses_catch, catchType_word, target_numberToken hc]
    show names.clauses (catches ++ [c]) cleanup _ = _
    rw [ih hmore, List.append_assoc, List.singleton_append]

theorem clauses_rangeTokens (h : ∀ n ∈ rangeEnds cleanup, n < unsignedLimit) (rest : List Token) :
    names.clauses catches none (rangeTokens cleanup ++ rest) = names.clauses catches cleanup rest := by
  cases cleanup with
  | none => rfl
  | some s =>
    obtain ⟨start, stop⟩ := s
    have hstart : start < unsignedLimit := h _ (List.mem_cons_self ..)
    have hstop : stop < unsignedLimit := h _ (List.mem_cons_of_mem _ (List.mem_cons_self ..))
    show names.clauses catches none (word "finally" :: numberToken start :: numberToken stop :: rest) = _
    rw [clauses_finally, target_numberToken hstart, target_numberToken hstop]; rfl

theorem clauses_tryTokens (place : Nat) (handlers : ∀ c ∈ catches, c.handler < unsignedLimit)
    (range : ∀ n ∈ rangeEnds cleanup, n < unsignedLimit) :
    names.clauses [] none (tryTokens place catches cleanup) = .ok (.pushTry catches cleanup) := by
  have first : ∀ c ∈ catches.take place, c.handler < unsignedLimit := fun c mem => handlers c (List.mem_of_mem_take mem)
  have last : ∀ c ∈ catches.drop place, c.handler < unsignedLimit := fun c mem => handlers c (List.mem_of_mem_drop mem)
  have more : names.clauses (catches.take place) cleanup ((catches.drop place).flatMap clauseTokens ++ []) = _ :=
    clauses_clauseTokens last []
  rw [List.append_nil, List.take_append_drop] at more
  rw [tryTokens, clauses_clauseTokens first, clauses_rangeTokens range, List.nil_append, more]; rfl

end

end SlotVM.Assembly

namespace SlotVM

open Assembly Decimal

/-! ## Instructions -/

/-- The numbers that a source mentions. -/
def Source.numbers : Source → List Nat
  | .function id | .param id | .constant id => [id]
  | .element ref position => [ref, position]
  | source => source.refs

/-- The numbers that an instruction mentions. -/
def Instruction.numbers : Instruction → List Nat
  | .assign target source => target :: source.numbers
  | .setConstant id value => [id, value]
  | .pushLoop start stop => [start, stop]
  | .pushTry catches cleanup => catches.map CatchClause.handler ++ rangeEnds cleanup
  | .jump target => [target]
  | .branch _ condition target => [condition, target]
  | .branchConstant id target => [id, target]
  | .exitLoop _ depth => [depth]
  | i => i.refs

/-- What can be written of a source: bare words for names, operators where they belong, and floating-point numbers
that `floatText` writes so that they are read back. -/
def Source.Spellable (floatText : Float → String) : Source → Prop
  | .float x => float? (floatText x) = some x
  | .record fields => ∀ p ∈ fields, IsFieldName p.1
  | .field _ name | .named name => IsWord name.toList
  | .binary _ op _ => op.fixity = .between
  | .unary op _ => op.fixity ≠ .between
  | _ => True

/-- What can be written of an instruction. -/
def Instruction.Spellable (floatText : Float → String) : Instruction → Prop
  | .assign _ source => source.Spellable floatText
  | .setField _ name _ | .bind name _ => IsWord name.toList
  | _ => True

/-- The mnemonic of an assignment, and its operands after the target. -/
def Source.spelling (floatText : Float → String) : Source → String × List Token
  | .integer n => ("int", [word (toString n.toInt)])
  | .float x => ("float", [word (floatText x)])
  | .char c => ("char", [⟨String.singleton c, some .single⟩])
  | .bool b => ("bool", [word (toString b)])
  | .string s => ("string", [⟨s, some .double⟩])
  | .array elements => ("array", elements.map slotToken)
  | .tuple elements => ("tuple", elements.map slotToken)
  | .record fields => ("struct", fields.map fieldToken)
  | .function id => ("func", [functionToken id])
  | .copy ref => ("copy", [slotToken ref])
  | .param position => ("param", [numberToken position])
  | .field ref name => ("field", [slotToken ref, word name])
  | .element ref position => ("element", [slotToken ref, numberToken position])
  | .index ref position => ("index", [slotToken ref, slotToken position])
  | .apply ref args => ("apply", slotToken ref :: args.map slotToken)
  | .binary left op right => ("binop", [slotToken left, word op.symbol.text, slotToken right])
  | .unary op operand =>
    (if op.fixity = .before then "prefix" else "postfix", [word op.symbol.text, slotToken operand])
  | .constant id => ("load_const", [constToken id])
  | .error => ("read_error", [])
  | .named name => ("resolve", [word name])

/-- The tokens of an instruction: its mnemonic and its operands. A finally clause stands after `place` catch
clauses. -/
def Instruction.line (floatText : Float → String) (place : Nat) : Instruction → List Token
  | .assign target source =>
    word (source.spelling floatText).1 :: slotToken target :: (source.spelling floatText).2
  | .setField ref name value => [word "set_field", slotToken ref, word name, slotToken value]
  | .setIndex ref index value => [word "set_index", slotToken ref, slotToken index, slotToken value]
  | .setConstant id value => [word "set_const", constToken id, slotToken value]
  | .call target ref args => word "call" :: slotToken target :: slotToken ref :: args.map slotToken
  | .bind name ref => [word "bind", word name, slotToken ref]
  | .pushScope => [word "push_scope"]
  | .pushLoop start stop => [word "push_loop", numberToken start, numberToken stop]
  | .pushTry catches cleanup => word "push_try" :: tryTokens place catches cleanup
  | .popFrame => [word "pop"]
  | .jump target => [word "jump", numberToken target]
  | .branch on condition target =>
    [word (if on then "br_true" else "br_false"), slotToken condition, numberToken target]
  | .branchConstant id target => [word "const_br", constToken id, numberToken target]
  | .nop => [word "nop"]
  | .ret value => [word "return", slotToken value]
  | .throw value => [word "throw", slotToken value]
  | .exitLoop .leave depth => [word "break", numberToken depth]
  | .exitLoop .again depth => [word "continue", numberToken depth]

namespace Assembly

variable {floatText : Float → String} {names : Names}

/-! ## Reading instructions back -/

theorem assignment_makes {source : Names → List Token → Option (Except SyntaxError Source)} {target : Nat}
    (fits : target < unsignedLimit) {operands : List Token} {s : Source} (made : source names operands = some (.ok s)) :
    assignment source names (slotToken target :: operands) = some (.ok (.assign target s)) := by
  show (source names operands).map _ = _
  rw [made]
  show some (ref (slotToken target) >>= _) = _
  rw [ref_slotToken fits]; rfl

theorem assignment₁_makes {source : Names → Token → Except SyntaxError Source} {target : Nat}
    (fits : target < unsignedLimit) {a : Token} {s : Source} (made : source names a = .ok s) :
    assignment₁ source names [slotToken target, a] = some (.ok (.assign target s)) :=
  assignment_makes fits (congrArg some made)

theorem assignment₂_makes {source : Token → Token → Except SyntaxError Source} {target : Nat}
    (fits : target < unsignedLimit) {a b : Token} {s : Source} (made : source a b = .ok s) :
    assignment₂ source names [slotToken target, a, b] = some (.ok (.assign target s)) :=
  assignment_makes fits (congrArg some made)

/-- An assignment is read as it was written. -/
theorem form_spelling (names : Names) {target : Nat} {s : Source} (fits : target < unsignedLimit)
    (numbers : ∀ n ∈ s.numbers, n < unsignedLimit) (spellable : s.Spellable floatText) :
    ∃ form, forms.lookup (s.spelling floatText).1 = some form ∧
      form names (slotToken target :: (s.spelling floatText).2) = some (.ok (.assign target s)) := by
  cases s with
  | integer n => exact ⟨_, rfl, assignment₁_makes fits (bind_ok.2 ⟨n, integer_word n, rfl⟩)⟩
  | float x => exact ⟨_, rfl, assignment₁_makes fits (bind_ok.2 ⟨x, float_word spellable, rfl⟩)⟩
  | char c =>
    refine ⟨_, rfl, congrArg some (bind_ok.2 ⟨c, char_literal c, bind_ok.2 ⟨target, ref_slotToken fits, rfl⟩⟩)⟩
  | bool b => exact ⟨_, rfl, assignment₁_makes fits (bind_ok.2 ⟨b, bool_word b, rfl⟩)⟩
  | string s => exact ⟨_, rfl, assignment_makes fits rfl⟩
  | array elements | tuple elements =>
    exact ⟨_, rfl, assignment_makes fits (congrArg some (bind_ok.2 ⟨elements, refs_slotTokens numbers, rfl⟩))⟩
  | record fields =>
    have slots : ∀ p ∈ fields, p.2 < unsignedLimit := fun p mem => numbers p.2 (List.mem_map_of_mem mem)
    exact ⟨_, rfl, congrArg some (bind_ok.2
      ⟨fields, fields_fieldTokens slots spellable, bind_ok.2 ⟨target, ref_slotToken fits, rfl⟩⟩)⟩
  | function id =>
    have hid : id < unsignedLimit := numbers id (List.mem_singleton_self id)
    exact ⟨_, rfl, assignment₁_makes fits (bind_ok.2 ⟨id, function_functionToken hid names, rfl⟩)⟩
  | copy ref =>
    have href : ref < unsignedLimit := numbers ref (List.mem_singleton_self ref)
    exact ⟨_, rfl, assignment₁_makes fits (bind_ok.2 ⟨ref, ref_slotToken href, rfl⟩)⟩
  | param position =>
    have hposition : position < unsignedLimit := numbers position (List.mem_singleton_self position)
    exact ⟨_, rfl, assignment₁_makes fits (bind_ok.2 ⟨position, natural_numberToken hposition, rfl⟩)⟩
  | field ref name =>
    have href : ref < unsignedLimit := numbers ref (List.mem_singleton_self ref)
    exact ⟨_, rfl, assignment₂_makes fits (bind_ok.2 ⟨ref, ref_slotToken href, bind_ok.2 ⟨name, rfl, rfl⟩⟩)⟩
  | element ref position =>
    obtain ⟨href, rest⟩ := List.forall_mem_cons.1 numbers
    have hposition : position < unsignedLimit := rest position (List.mem_singleton_self position)
    exact ⟨_, rfl, assignment₂_makes fits
      (bind_ok.2 ⟨ref, ref_slotToken href, bind_ok.2 ⟨position, natural_numberToken hposition, rfl⟩⟩)⟩
  | index ref position =>
    obtain ⟨href, rest⟩ := List.forall_mem_cons.1 numbers
    have hposition : position < unsignedLimit := rest position (List.mem_singleton_self position)
    exact ⟨_, rfl, assignment₂_makes fits
      (bind_ok.2 ⟨ref, ref_slotToken href, bind_ok.2 ⟨position, ref_slotToken hposition, rfl⟩⟩)⟩
  | apply ref args =>
    obtain ⟨href, rest⟩ := List.forall_mem_cons.1 numbers
    exact ⟨_, rfl, assignment_makes fits (congrArg some
      (bind_ok.2 ⟨ref, ref_slotToken href, bind_ok.2 ⟨args, refs_slotTokens rest, rfl⟩⟩))⟩
  | binary left op right =>
    obtain ⟨hleft, rest⟩ := List.forall_mem_cons.1 numbers
    have hright : right < unsignedLimit := rest right (List.mem_singleton_self right)
    have hop : operator .between (word op.symbol.text) = .ok op := spellable ▸ operator_word op
    exact ⟨_, rfl, assignment_makes fits (congrArg some (bind_ok.2
      ⟨left, ref_slotToken hleft, bind_ok.2 ⟨op, hop, bind_ok.2 ⟨right, ref_slotToken hright, rfl⟩⟩⟩))⟩
  | unary op operand =>
    have hoperand : operand < unsignedLimit := numbers operand (List.mem_singleton_self operand)
    obtain ⟨symbol, fixity⟩ := op
    cases fixity with
    | before | after =>
      exact ⟨_, rfl, assignment₂_makes fits
        (bind_ok.2 ⟨_, operator_word ⟨symbol, _⟩, bind_ok.2 ⟨operand, ref_slotToken hoperand, rfl⟩⟩)⟩
    | between => exact absurd rfl spellable
  | constant id =>
    have hid : id < unsignedLimit := numbers id (List.mem_singleton_self id)
    exact ⟨_, rfl, assignment₁_makes fits (bind_ok.2 ⟨id, const_constToken hid, rfl⟩)⟩
  | error => exact ⟨_, rfl, assignment_makes fits rfl⟩
  | named name => exact ⟨_, rfl, assignment₁_makes fits (bind_ok.2 ⟨name, rfl, rfl⟩)⟩

/-- An instruction is read as it was written. -/
theorem statement_line (names : Names) {i : Instruction} (numbers : ∀ n ∈ i.numbers, n < unsignedLimit)
    (spellable : i.Spellable floatText) (place : Nat) : statement names (i.line floatText place) = .ok i := by
  cases i with
  | assign target source =>
    obtain ⟨fits, rest⟩ := List.forall_mem_cons.1 numbers
    obtain ⟨form, known, made⟩ := form_spelling names fits rest spellable
    exact (statement_word known).2 made
  | setField ref name value =>
    obtain ⟨href, rest⟩ := List.forall_mem_cons.1 numbers
    have hvalue : value < unsignedLimit := rest value (List.mem_singleton_self value)
    refine (statement_word rfl).2 (congrArg some ?_)
    exact bind_ok.2 ⟨ref, ref_slotToken href, bind_ok.2 ⟨name, rfl, bind_ok.2 ⟨value, ref_slotToken hvalue, rfl⟩⟩⟩
  | setIndex ref index value =>
    obtain ⟨href, rest⟩ := List.forall_mem_cons.1 numbers
    obtain ⟨hindex, rest⟩ := List.forall_mem_cons.1 rest
    have hvalue : value < unsignedLimit := rest value (List.mem_singleton_self value)
    refine (statement_word rfl).2 (congrArg some ?_)
    exact bind_ok.2
      ⟨ref, ref_slotToken href, bind_ok.2 ⟨index, ref_slotToken hindex, bind_ok.2 ⟨value, ref_slotToken hvalue, rfl⟩⟩⟩
  | setConstant id value =>
    obtain ⟨hid, rest⟩ := List.forall_mem_cons.1 numbers
    have hvalue : value < unsignedLimit := rest value (List.mem_singleton_self value)
    exact (statement_word rfl).2 (form₂_makes.2 ⟨_, _, id, value, rfl, const_constToken hid, ref_slotToken hvalue, rfl⟩)
  | call target ref args =>
    obtain ⟨htarget, rest⟩ := List.forall_mem_cons.1 numbers
    obtain ⟨href, hargs⟩ := List.forall_mem_cons.1 rest
    refine (statement_word rfl).2 (congrArg some ?_)
    exact bind_ok.2
      ⟨target, ref_slotToken htarget, bind_ok.2 ⟨ref, ref_slotToken href, bind_ok.2 ⟨args, refs_slotTokens hargs, rfl⟩⟩⟩
  | bind name ref =>
    have href : ref < unsignedLimit := numbers ref (List.mem_singleton_self ref)
    exact (statement_word rfl).2 (form₂_makes.2 ⟨_, _, name, ref, rfl, rfl, ref_slotToken href, rfl⟩)
  | pushLoop start stop =>
    obtain ⟨hstart, rest⟩ := List.forall_mem_cons.1 numbers
    have hstop : stop < unsignedLimit := rest stop (List.mem_singleton_self stop)
    exact (statement_word rfl).2 (form₂_makes.2
      ⟨_, _, start, stop, rfl, target_numberToken hstart names, target_numberToken hstop names, rfl⟩)
  | pushTry catches cleanup =>
    obtain ⟨handlers, range⟩ := List.forall_mem_append.1 numbers
    exact (statement_word rfl).2 (congrArg some
      (clauses_tryTokens place (fun c mem => handlers c.handler (List.mem_map_of_mem mem)) range))
  | jump target =>
    have htarget : target < unsignedLimit := numbers target (List.mem_singleton_self target)
    exact (statement_word rfl).2 (form₁_makes.2 ⟨_, target, rfl, target_numberToken htarget names, rfl⟩)
  | branch on condition target =>
    obtain ⟨hcondition, rest⟩ := List.forall_mem_cons.1 numbers
    have htarget : target < unsignedLimit := rest target (List.mem_singleton_self target)
    cases on with
    | true | false =>
      exact (statement_word rfl).2 (form₂_makes.2
        ⟨_, _, condition, target, rfl, ref_slotToken hcondition, target_numberToken htarget names, rfl⟩)
  | branchConstant id target =>
    obtain ⟨hid, rest⟩ := List.forall_mem_cons.1 numbers
    have htarget : target < unsignedLimit := rest target (List.mem_singleton_self target)
    exact (statement_word rfl).2 (form₂_makes.2
      ⟨_, _, id, target, rfl, const_constToken hid, target_numberToken htarget names, rfl⟩)
  | ret value | throw value =>
    have hvalue : value < unsignedLimit := numbers value (List.mem_singleton_self value)
    exact (statement_word rfl).2 (form₁_makes.2 ⟨_, value, rfl, ref_slotToken hvalue, rfl⟩)
  | exitLoop exit depth =>
    have hdepth : depth < unsignedLimit := numbers depth (List.mem_singleton_self depth)
    cases exit with
    | leave | again =>
      exact (statement_word rfl).2 (form₁_makes.2 ⟨_, depth, rfl, natural_numberToken hdepth, rfl⟩)
  | pushScope | popFrame | nop => exact (statement_word rfl).2 rfl

/-! ## Writing tokens -/

theorem IsWord.append {cs ds : List Char} (first : cs = [] ∨ IsWord cs) (last : IsWord ds) : IsWord (cs ++ ds) := by
  rcases first with rfl | ⟨ne, chars, head⟩
  · exact last
  · refine ⟨by simp [ne], fun c mem => ?_, ?_⟩
    · exact (List.mem_append.1 mem).elim (chars c) (last.2.1 c)
    · rwa [List.head?_append_of_ne_nil _ ne]

theorem writable_mark {mark : String} (h : IsWord mark.toList) (n : Nat) : (word (mark ++ toString n)).Writable := by
  refine writable_word ?_
  rw [String.toList_append]
  exact .append (.inr h) (isWord_toString n)

@[simp] theorem writable_slotToken (r : Nat) : (slotToken r).Writable := writable_mark (by decide) r

@[simp] theorem writable_constToken (c : Nat) : (constToken c).Writable := writable_mark (by decide) c

@[simp] theorem writable_functionToken (id : Nat) : (functionToken id).Writable := writable_mark (by decide) id

@[simp] theorem writable_numberToken (n : Nat) : (numberToken n).Writable := writable_word (isWord_toString n)

theorem writable_fieldToken {p : String × Nat} (h : IsFieldName p.1) : (fieldToken p).Writable := by
  refine writable_word ?_
  rw [String.toList_append, String.toList_append, List.append_assoc]
  refine .append ?_ (.append (.inr (by decide)) (isWord_toString p.2))
  exact h.1.imp (fun empty => by rw [empty]; rfl) id

@[simp] theorem writable_symbol (s : Symbol) : (word s.text).Writable := by
  cases s <;> exact writable_word (by decide)

@[simp] theorem writable_catchType (type : CatchType) : (word type.name).Writable := by
  cases type with
  | any => exact writable_word (by decide)
  | kind k => cases k <;> exact writable_word (by decide)

theorem writable_tryTokens (place : Nat) (catches : List CatchClause) (cleanup : Option Span) :
    ∀ t ∈ tryTokens place catches cleanup, t.Writable := by
  have clauses (cs : List CatchClause) : ∀ t ∈ cs.flatMap clauseTokens, t.Writable := by
    intro t mem
    obtain ⟨c, -, mem⟩ := List.mem_flatMap.1 mem
    simp only [clauseTokens, List.mem_cons, List.not_mem_nil, or_false] at mem
    rcases mem with rfl | rfl | rfl
    · exact writable_word (by decide)
    · exact writable_catchType c.type
    · exact writable_numberToken c.handler
  have range : ∀ t ∈ rangeTokens cleanup, t.Writable := by
    cases cleanup with
    | none => exact List.forall_mem_nil _
    | some s =>
      simp only [rangeTokens, List.forall_mem_cons]
      exact ⟨writable_word (by decide), writable_numberToken s.start, writable_numberToken s.stop, nofun⟩
  unfold tryTokens
  exact List.forall_mem_append.2 ⟨clauses _, List.forall_mem_append.2 ⟨range, clauses _⟩⟩

theorem writable_slotTokens (rs : List Nat) : ∀ t ∈ rs.map slotToken, t.Writable :=
  List.forall_mem_map.2 fun r _ => writable_slotToken r

theorem writable_spelling {s : Source} (h : s.Spellable floatText) : ∀ t ∈ (s.spelling floatText).2, t.Writable := by
  cases s with
  | integer n => exact List.forall_mem_singleton.2 (writable_word (isWord_intToString _))
  | float x => exact List.forall_mem_singleton.2 (writable_word (isWord_of_float? h))
  | char c => exact List.forall_mem_singleton.2 (writable_literal _ _)
  | bool b => cases b <;> exact List.forall_mem_singleton.2 (writable_word (by decide))
  | string s => exact List.forall_mem_singleton.2 (writable_literal _ _)
  | array elements | tuple elements => exact writable_slotTokens elements
  | record fields => exact List.forall_mem_map.2 fun p mem => writable_fieldToken (h p mem)
  | field ref name => exact List.forall_mem_cons.2 ⟨writable_slotToken ref, List.forall_mem_singleton.2 (writable_word h)⟩
  | named name => exact List.forall_mem_singleton.2 (writable_word h)
  | apply ref args => exact List.forall_mem_cons.2 ⟨writable_slotToken ref, writable_slotTokens args⟩
  | _ => simp [Source.spelling]

theorem writable_operands {i : Instruction} (h : i.Spellable floatText) (place : Nat) :
    ∀ t ∈ (i.line floatText place).tail, t.Writable := by
  cases i with
  | assign target source => exact List.forall_mem_cons.2 ⟨writable_slotToken target, writable_spelling h⟩
  | setField ref name value =>
    have name : (word name).Writable := writable_word h
    simp [Instruction.line, name]
  | bind name ref =>
    have name : (word name).Writable := writable_word h
    simp [Instruction.line, name]
  | call target ref args =>
    exact List.forall_mem_cons.2
      ⟨writable_slotToken target, List.forall_mem_cons.2 ⟨writable_slotToken ref, writable_slotTokens args⟩⟩
  | pushTry catches cleanup => exact writable_tryTokens place catches cleanup
  | exitLoop exit depth => cases exit <;> simp [Instruction.line]
  | _ => simp [Instruction.line]

/-- The tokens of a line can be written. -/
theorem writable_line {i : Instruction} (numbers : ∀ n ∈ i.numbers, n < unsignedLimit) (h : i.Spellable floatText)
    (place : Nat) : ∀ t ∈ i.line floatText place, t.Writable := by
  -- the line begins with one of the mnemonics
  obtain ⟨mnemonic, form, operands, line, known, -⟩ := statement_ok (statement_line ⟨[], []⟩ numbers h place)
  have rest := writable_operands h place
  rw [line] at rest ⊢
  exact List.forall_mem_cons.2 ⟨writable_word (isWord_of_lookup known), rest⟩

end Assembly

end SlotVM
