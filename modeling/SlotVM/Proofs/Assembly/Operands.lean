/-
The operands of instruction lines that name places: jump targets and functions. `statement_denotes`: they are the
targets and the functions of the instruction, each what the operand stands for. `statement_replace`: nothing
else of a line depends on the names, so other operands that stand for the same places make the same instruction.
-/
import SlotVM.Assembly.Statement
import SlotVM.Proofs.Assembly.Spelling

namespace SlotVM

/-- The ends of an optional range. -/
def rangeEnds (range : Option Span) : List Nat := range.elim [] fun s => [s.start, s.stop]

/-- The places in its function that an instruction names, the handlers of a try construct before its finally
range. -/
def Instruction.targets : Instruction → List Nat
  | .pushLoop start stop => [start, stop]
  | .pushTry catches cleanup => catches.map CatchClause.handler ++ rangeEnds cleanup
  | .jump target | .branch _ _ target | .branchConstant _ target => [target]
  | _ => []

/-- The finally range that an instruction names. -/
def Instruction.cleanup : Instruction → Option Span
  | .pushTry _ cleanup => cleanup
  | _ => none

/-- The functions that an instruction names. -/
def Instruction.functions : Instruction → List Nat
  | .assign _ (.function id) => [id]
  | _ => []

namespace Assembly

/-! ## Operands -/

theorem orError_ok {α : Type} {e : SyntaxError} {o : Option α} {a : α} : orError e o = .ok a ↔ o = some a := by
  cases o <;> simp [orError]

theorem target_word (names : Names) (text : String) : names.target (word text) =
    orError (.undefinedLabel text) ((Decimal.unsigned? text).or (names.labels.lookup text)) := rfl

theorem function_word (names : Names) (name : String) : names.function (word ("@" ++ name)) =
    orError (.undefinedFunction name) ((Decimal.unsigned? name).or (names.functions.lookup name)) := by
  have chars : ("@" ++ name).toList = '@' :: name.toList := by rw [String.toList_append]; rfl
  rw [Names.function, word_bare]
  dsimp only [bind, Except.bind]
  rw [chars]
  show orError (.undefinedFunction (String.ofList name.toList)) ((Decimal.unsigned? (String.ofList name.toList)).or
    (names.functions.lookup (String.ofList name.toList))) = _
  rw [String.ofList_toList]

/-- The handlers that the clauses of a try construct name. -/
def catchOperands : List Token → List Token
  | t :: _ :: b :: rest => if t.text = "catch" then b :: catchOperands rest else catchOperands rest
  | _ => []

/-- The start and the end that the finally clause of a try construct names. -/
def cleanupOperands : List Token → List Token
  | t :: a :: b :: rest => if t.text = "finally" then a :: b :: cleanupOperands rest else cleanupOperands rest
  | _ => []

/-- The operands of a mnemonic that are jump targets. -/
def targetOperands (mnemonic : String) (operands : List Token) : List Token :=
  match mnemonic, operands with
  | "push_loop", [a, b] => [a, b]
  | "push_try", clauses => catchOperands clauses ++ cleanupOperands clauses
  | "jump", [l] | "br_true", [_, l] | "br_false", [_, l] | "const_br", [_, l] => [l]
  | _, _ => []

/-- The operands of a mnemonic that are the start and the end of a finally range. -/
def rangeOperands (mnemonic : String) (operands : List Token) : List Token :=
  match mnemonic, operands with
  | "push_try", clauses => cleanupOperands clauses
  | _, _ => []

/-- The operands of a mnemonic that are functions. -/
def functionOperands (mnemonic : String) (operands : List Token) : List Token :=
  match mnemonic, operands with
  | "func", [_, f] => [f]
  | _, _ => []

/-- The clauses of a try construct with other targets. -/
def replaceClauses (f : Token → Token) : List Token → List Token
  | t :: a :: b :: rest =>
    if t.text = "catch" then t :: a :: f b :: replaceClauses f rest else t :: f a :: f b :: replaceClauses f rest
  | rest => rest

/-- The operands of a mnemonic with other jump targets and functions. -/
def replaceOperands (f g : Token → Token) (mnemonic : String) (operands : List Token) : List Token :=
  match mnemonic, operands with
  | "func", [t, x] => [t, g x]
  | "push_loop", [a, b] => [f a, f b]
  | "push_try", clauses => replaceClauses f clauses
  | "jump", [l] => [f l]
  | "br_true", [c, l] | "br_false", [c, l] | "const_br", [c, l] => [c, f l]
  | _, operands => operands

/-- The mnemonics with operands that name places. -/
def symbolic : List String := ["func", "push_loop", "push_try", "jump", "br_true", "br_false", "const_br"]

section
variable {mnemonic : String} (h : mnemonic ∉ symbolic) (operands : List Token)
include h

theorem targetOperands_plain : targetOperands mnemonic operands = [] := by
  unfold targetOperands
  split
  all_goals first | rfl | exact absurd (by decide) h

theorem rangeOperands_plain : rangeOperands mnemonic operands = [] := by
  unfold rangeOperands
  split
  all_goals first | rfl | exact absurd (by decide) h

theorem functionOperands_plain : functionOperands mnemonic operands = [] := by
  unfold functionOperands
  split
  all_goals first | rfl | exact absurd (by decide) h

theorem replaceOperands_plain (f g : Token → Token) : replaceOperands f g mnemonic operands = operands := by
  unfold replaceOperands
  split
  all_goals first | rfl | exact absurd (by decide) h

end

/-! ## Forms -/

/-- What a mnemonic makes of its operands depends on the places that they name alone. -/
structure Form.Follows (form : Form) (mnemonic : String) : Prop where
  targets : ∀ {names operands i}, form names operands = some (.ok i) →
    List.Forall₂ (fun t n => names.target t = .ok n) (targetOperands mnemonic operands) i.targets
  range : ∀ {names operands i}, form names operands = some (.ok i) →
    List.Forall₂ (fun t n => names.target t = .ok n) (rangeOperands mnemonic operands) (rangeEnds i.cleanup)
  functions : ∀ {names operands i}, form names operands = some (.ok i) →
    List.Forall₂ (fun t n => names.function t = .ok n) (functionOperands mnemonic operands) i.functions
  replace : ∀ {names names' : Names} {operands i} {f g : Token → Token},
    (∀ t ∈ targetOperands mnemonic operands, names'.target (f t) = names.target t) →
    (∀ t ∈ functionOperands mnemonic operands, names'.function (g t) = names.function t) →
    form names operands = some (.ok i) → form names' (replaceOperands f g mnemonic operands) = some (.ok i)

/-- Every result of a computation has a property. -/
def Gives {α : Type} (Q : α → Prop) (r : Except SyntaxError α) : Prop := ∀ a, r = .ok a → Q a

namespace Gives

variable {α β : Type} {Q : β → Prop}

theorem pure {b : β} (h : Q b) : Gives Q (Pure.pure b) := by
  rintro _ ⟨⟩
  exact h

theorem bind {r : Except SyntaxError α} {f : α → Except SyntaxError β} (h : ∀ a, Gives Q (f a)) : Gives Q (r >>= f) := by
  intro b hb
  cases r with
  | error e => cases hb
  | ok a => exact h a b hb

end Gives

/-- An instruction that names no place. -/
def Plain (i : Instruction) : Prop := i.targets = [] ∧ i.functions = []

theorem Plain.cleanup {i : Instruction} (h : Plain i) : i.cleanup = none := by
  cases i with
  | pushTry catches cleanup =>
    cases cleanup with
    | none => rfl
    | some s => simp [Plain, Instruction.targets, rangeEnds] at h
  | _ => rfl

/-- A form that names no places. -/
structure Form.IsPlain (form : Form) : Prop where
  names : ∀ names names', form names = form names'
  makes : ∀ names operands, ∀ r ∈ form names operands, Gives Plain r

theorem Form.IsPlain.follows {form : Form} (h : form.IsPlain) {mnemonic : String} (plain : mnemonic ∉ symbolic) :
    form.Follows mnemonic where
  targets {names operands i} made := by
    rw [targetOperands_plain plain, (h.makes names operands _ made i rfl).1]
    exact .nil
  range {names operands i} made := by
    rw [rangeOperands_plain plain, (h.makes names operands _ made i rfl).cleanup]
    exact .nil
  functions {names operands i} made := by
    rw [functionOperands_plain plain, (h.makes names operands _ made i rfl).2]
    exact .nil
  replace {names names' operands i f g} _ _ made := by
    rw [replaceOperands_plain plain, h.names names' names, made]

/-! ### Forms that name no places -/

/-- A source that names no function. -/
def PlainSource (s : Source) : Prop := ∀ id, s ≠ .function id

theorem plain_assign {target : Nat} {s : Source} (h : PlainSource s) : Plain (.assign target s) := by
  refine ⟨rfl, ?_⟩
  cases s with
  | function id => exact absurd rfl (h id)
  | _ => rfl

namespace Form.IsPlain

theorem assignment {source : List Token → Option (Except SyntaxError Source)}
    (h : ∀ operands, ∀ r ∈ source operands, Gives PlainSource r) : IsPlain (Assembly.assignment fun _ => source) where
  names _ _ := rfl
  makes names operands r hr := by
    cases operands with
    | nil => cases hr
    | cons t rest =>
      obtain ⟨s, hs, rfl⟩ := Option.map_eq_some_iff.1 hr
      refine .bind fun target => ?_
      intro i hi
      obtain ⟨a, ha, hi⟩ := bind_ok.1 hi
      cases hi
      exact plain_assign (h rest s hs a ha)

theorem assignment₁ {source : Token → Except SyntaxError Source} (h : ∀ a, Gives PlainSource (source a)) :
    IsPlain (Assembly.assignment₁ fun _ => source) := by
  refine assignment ?_
  rintro (_ | ⟨a, _ | ⟨b, rest⟩⟩) r hr
  · cases hr
  · cases hr
    exact h a
  · cases hr

theorem assignment₂ {source : Token → Token → Except SyntaxError Source}
    (h : ∀ a b, Gives PlainSource (source a b)) : IsPlain (Assembly.assignment₂ source) := by
  refine assignment ?_
  rintro (_ | ⟨a, _ | ⟨b, _ | ⟨c, rest⟩⟩⟩) r hr
  · cases hr
  · cases hr
  · cases hr
    exact h a b
  · cases hr

theorem plain {i : Instruction} (h : Plain i) : IsPlain (Assembly.plain i) where
  names _ _ := rfl
  makes names operands r hr := by
    cases operands with
    | nil => cases hr; exact .pure h
    | cons t rest => cases hr

theorem form₁ {f : Token → Except SyntaxError Instruction} (h : ∀ a, Gives Plain (f a)) :
    IsPlain (Assembly.form₁ fun _ => f) where
  names _ _ := rfl
  makes names operands r hr := by
    match operands with
    | [a] => cases hr; exact h a
    | [] | _ :: _ :: _ => cases hr

theorem form₂ {f : Token → Token → Except SyntaxError Instruction} (h : ∀ a b, Gives Plain (f a b)) :
    IsPlain (Assembly.form₂ fun _ => f) where
  names _ _ := rfl
  makes names operands r hr := by
    match operands with
    | [a, b] => cases hr; exact h a b
    | [] | [_] | _ :: _ :: _ :: _ => cases hr

theorem form₃ {f : Token → Token → Token → Except SyntaxError Instruction} (h : ∀ a b c, Gives Plain (f a b c)) :
    IsPlain (Assembly.form₃ f) where
  names _ _ := rfl
  makes names operands r hr := by
    match operands with
    | [a, b, c] => cases hr; exact h a b c
    | [] | [_] | [_, _] | _ :: _ :: _ :: _ :: _ => cases hr

theorem charForm : IsPlain Assembly.charForm where
  names _ _ := rfl
  makes names operands r hr := by
    match operands with
    | [t, v] =>
      simp only [Assembly.charForm] at hr
      split at hr
      · cases hr
        exact .bind fun _ => .bind fun _ => .pure (plain_assign nofun)
      · cases hr
    | [] | [_] | _ :: _ :: _ :: _ => cases hr

theorem recordForm : IsPlain Assembly.recordForm where
  names _ _ := rfl
  makes names operands r hr := by
    match operands with
    | t :: fields => cases hr; exact .bind fun _ => .bind fun _ => .pure (plain_assign nofun)
    | [] => cases hr

end Form.IsPlain

/-! ### Forms that name places -/

section
variable {names : Names} {operands : List Token} {i : Instruction}

theorem func_makes :
    assignment₁ (fun names f => return .function (← names.function f)) names operands = some (.ok i) ↔
      ∃ t x target id, operands = [t, x] ∧ ref t = .ok target ∧ names.function x = .ok id ∧
        i = .assign target (.function id) := by
  constructor
  · intro made
    match operands with
    | [t, x] =>
      obtain ⟨target, ht, made⟩ := bind_ok.1 (Option.some.inj made)
      obtain ⟨s, hs, made⟩ := bind_ok.1 made
      obtain ⟨id, hx, hs⟩ := bind_ok.1 hs
      cases hs
      cases made
      exact ⟨t, x, target, id, rfl, ht, hx, rfl⟩
    | [] | [_] | _ :: _ :: _ :: _ => cases made
  · rintro ⟨t, x, target, id, rfl, ht, hx, rfl⟩
    show some (ref t >>= fun target => (names.function x >>= _) >>= _) = _
    rw [ht, hx]; rfl

theorem form₁_makes {α : Type} {read : Names → Token → Except SyntaxError α} {make : α → Instruction} :
    form₁ (fun names a => return make (← read names a)) names operands = some (.ok i) ↔
      ∃ a x, operands = [a] ∧ read names a = .ok x ∧ i = make x := by
  constructor
  · intro made
    match operands with
    | [a] =>
      obtain ⟨x, ha, made⟩ := bind_ok.1 (Option.some.inj made)
      cases made
      exact ⟨a, x, rfl, ha, rfl⟩
    | [] | _ :: _ :: _ => cases made
  · rintro ⟨a, x, rfl, ha, rfl⟩
    show some (read names a >>= _) = _
    rw [ha]; rfl

theorem form₂_makes {α β : Type} {first : Names → Token → Except SyntaxError α}
    {second : Names → Token → Except SyntaxError β} {make : α → β → Instruction} :
    form₂ (fun names a b => return make (← first names a) (← second names b)) names operands = some (.ok i) ↔
      ∃ a b x y, operands = [a, b] ∧ first names a = .ok x ∧ second names b = .ok y ∧ i = make x y := by
  constructor
  · intro made
    match operands with
    | [a, b] =>
      obtain ⟨x, ha, made⟩ := bind_ok.1 (Option.some.inj made)
      obtain ⟨y, hb, made⟩ := bind_ok.1 made
      cases made
      exact ⟨a, b, x, y, rfl, ha, hb, rfl⟩
    | [] | [_] | _ :: _ :: _ :: _ => cases made
  · rintro ⟨a, b, x, y, rfl, ha, hb, rfl⟩
    show some (first names a >>= fun _ => second names b >>= _) = _
    rw [ha, hb]; rfl

end

theorem func_follows : Form.Follows (assignment₁ fun names f => return .function (← names.function f)) "func" where
  targets made := by
    obtain ⟨t, x, target, id, rfl, -, -, rfl⟩ := func_makes.1 made
    exact .nil
  range made := by
    obtain ⟨t, x, target, id, rfl, -, -, rfl⟩ := func_makes.1 made
    exact .nil
  functions made := by
    obtain ⟨t, x, target, id, rfl, -, hx, rfl⟩ := func_makes.1 made
    exact .cons hx .nil
  replace {names names' operands i f g} _ functions made := by
    obtain ⟨t, x, target, id, rfl, ht, hx, rfl⟩ := func_makes.1 made
    have same : names'.function (g x) = names.function x := functions x (List.mem_singleton_self x)
    exact func_makes.2 ⟨t, g x, target, id, rfl, ht, same.trans hx, rfl⟩

theorem push_loop_follows :
    Form.Follows (form₂ fun names a b => return .pushLoop (← names.target a) (← names.target b)) "push_loop" where
  targets made := by
    obtain ⟨a, b, start, stop, rfl, ha, hb, rfl⟩ := form₂_makes.1 made
    exact .cons ha (.cons hb .nil)
  range made := by
    obtain ⟨a, b, start, stop, rfl, -, -, rfl⟩ := form₂_makes.1 made
    exact .nil
  functions made := by
    obtain ⟨a, b, start, stop, rfl, -, -, rfl⟩ := form₂_makes.1 made
    exact .nil
  replace {names names' operands i f g} targets _ made := by
    obtain ⟨a, b, start, stop, rfl, ha, hb, rfl⟩ := form₂_makes.1 made
    have same : ∀ t ∈ [a, b], names'.target (f t) = names.target t := targets
    obtain ⟨same_a, same⟩ := List.forall_mem_cons.1 same
    exact form₂_makes.2 ⟨f a, f b, start, stop, rfl, same_a.trans ha, (same b (List.mem_singleton_self b)).trans hb, rfl⟩

theorem jump_follows : Form.Follows (form₁ fun names l => return .jump (← names.target l)) "jump" where
  targets made := by
    obtain ⟨l, n, rfl, hl, rfl⟩ := form₁_makes.1 made
    exact .cons hl .nil
  range made := by
    obtain ⟨l, n, rfl, -, rfl⟩ := form₁_makes.1 made
    exact .nil
  functions made := by
    obtain ⟨l, n, rfl, -, rfl⟩ := form₁_makes.1 made
    exact .nil
  replace {names names' operands i f g} targets _ made := by
    obtain ⟨l, n, rfl, hl, rfl⟩ := form₁_makes.1 made
    have same : names'.target (f l) = names.target l := targets l (List.mem_singleton_self l)
    exact form₁_makes.2 ⟨f l, n, rfl, same.trans hl, rfl⟩

/-- A jump on a condition. -/
theorem branch_follows {mnemonic : String} (branch : mnemonic ∈ ["br_true", "br_false", "const_br"])
    {condition : Token → Except SyntaxError Nat} {make : Nat → Nat → Instruction}
    (targets : ∀ c n, (make c n).targets = [n]) (range : ∀ c n, (make c n).cleanup = none)
    (functions : ∀ c n, (make c n).functions = []) :
    Form.Follows (form₂ fun names c l => return make (← condition c) (← names.target l)) mnemonic := by
  have operand (c l : Token) : targetOperands mnemonic [c, l] = [l] ∧ rangeOperands mnemonic [c, l] = [] ∧
      functionOperands mnemonic [c, l] = [] ∧ ∀ f g, replaceOperands f g mnemonic [c, l] = [c, f l] := by
    simp only [List.mem_cons, List.not_mem_nil, or_false] at branch
    rcases branch with rfl | rfl | rfl <;> exact ⟨rfl, rfl, rfl, fun _ _ => rfl⟩
  constructor
  · intro names operands i made
    obtain ⟨c, l, k, n, rfl, -, hl, rfl⟩ := form₂_makes.1 made
    rw [(operand c l).1, targets]
    exact .cons hl .nil
  · intro names operands i made
    obtain ⟨c, l, k, n, rfl, -, -, rfl⟩ := form₂_makes.1 made
    rw [(operand c l).2.1, range]
    exact .nil
  · intro names operands i made
    obtain ⟨c, l, k, n, rfl, -, -, rfl⟩ := form₂_makes.1 made
    rw [(operand c l).2.2.1, functions]
    exact .nil
  · intro names names' operands i f g same _ made
    obtain ⟨c, l, k, n, rfl, hc, hl, rfl⟩ := form₂_makes.1 made
    rw [(operand c l).1] at same
    rw [(operand c l).2.2.2]
    exact form₂_makes.2 ⟨c, f l, k, n, rfl, hc, (same l (List.mem_singleton_self l)).trans hl, rfl⟩

/-! ### Try constructs -/

section
variable {names names' : Names} {f : Token → Token} {catches : List CatchClause} {cleanup : Option Span}
  {a b : Token} {rest : List Token}

theorem clauses_catch : names.clauses catches cleanup (word "catch" :: a :: b :: rest) =
    catchType a >>= fun type => names.target b >>= fun handler =>
      names.clauses (catches ++ [⟨type, handler⟩]) cleanup rest := rfl

theorem clauses_finally : names.clauses catches none (word "finally" :: a :: b :: rest) =
    names.target a >>= fun start => names.target b >>= fun stop =>
      names.clauses catches (some ⟨start, stop⟩) rest := rfl

/-- A clause begins with one of two words; any other token is an error whatever follows it. -/
theorem clauses_cases (catches : List CatchClause) (cleanup : Option Span) (t : Token) :
    t = word "catch" ∨ (t = word "finally" ∧ cleanup = none) ∨
      ∃ e, ∀ (names : Names) (a b : Token) (rest : List Token),
        names.clauses catches cleanup (t :: a :: b :: rest) = .error e := by
  obtain ⟨text, _ | q⟩ := t
  · by_cases is_catch : text = "catch"
    · exact .inl (congrArg word is_catch)
    by_cases is_finally : text = "finally" ∧ cleanup.isNone
    · exact .inr (.inl ⟨congrArg word is_finally.1, Option.isNone_iff_eq_none.1 is_finally.2⟩)
    · refine .inr (.inr ⟨.malformedClause text, fun names a b rest => ?_⟩)
      show (if text = "catch" then _ else if text = "finally" ∧ cleanup.isNone = true then _ else _) = _
      rw [if_neg is_catch, if_neg is_finally]; rfl
  · exact .inr (.inr ⟨_, fun _ _ _ _ => rfl⟩)

/-- The clauses of a try construct name its handlers and its finally range. -/
theorem clauses_ok : ∀ {ts : List Token} {catches : List CatchClause} {cleanup : Option Span} {i : Instruction},
    names.clauses catches cleanup ts = .ok i →
    ∃ more range, i = .pushTry (catches ++ more) (cleanup.or range) ∧ (cleanup.isSome → range = none) ∧
      List.Forall₂ (fun t n => names.target t = .ok n) (catchOperands ts) (more.map CatchClause.handler) ∧
      List.Forall₂ (fun t n => names.target t = .ok n) (cleanupOperands ts) (rangeEnds range)
  | [], catches, cleanup, i, h => by
    cases h
    exact ⟨[], none, by simp, fun _ => rfl, .nil, .nil⟩
  | [t], _, _, _, h | [t, _], _, _, _, h => by
    obtain ⟨_, -, h⟩ := bind_ok.1 h
    cases h
  | t :: a :: b :: rest, catches, cleanup, i, h => by
    rcases clauses_cases catches cleanup t with rfl | ⟨rfl, rfl⟩ | ⟨e, error⟩
    · rw [clauses_catch] at h
      obtain ⟨type, -, h⟩ := bind_ok.1 h
      obtain ⟨handler, target, h⟩ := bind_ok.1 h
      obtain ⟨more, range, rfl, once, handlers, cleanups⟩ := clauses_ok h
      exact ⟨⟨type, handler⟩ :: more, range, by simp, once, .cons target handlers, cleanups⟩
    · rw [clauses_finally] at h
      obtain ⟨start, hstart, h⟩ := bind_ok.1 h
      obtain ⟨stop, hstop, h⟩ := bind_ok.1 h
      obtain ⟨more, range, rfl, once, handlers, cleanups⟩ := clauses_ok h
      cases once rfl
      exact ⟨more, some ⟨start, stop⟩, rfl, nofun, handlers, .cons hstart (.cons hstop cleanups)⟩
    · rw [error names a b rest] at h
      cases h

/-- Clauses depend on the places that they name alone. -/
theorem clauses_replace : ∀ {ts : List Token} (catches : List CatchClause) (cleanup : Option Span),
    (∀ t ∈ catchOperands ts, names'.target (f t) = names.target t) →
    (∀ t ∈ cleanupOperands ts, names'.target (f t) = names.target t) →
    names'.clauses catches cleanup (replaceClauses f ts) = names.clauses catches cleanup ts
  | [], _, _, _, _ | [_], _, _, _, _ | [_, _], _, _, _, _ => rfl
  | t :: a :: b :: rest, catches, cleanup, handlers, cleanups => by
    rcases clauses_cases catches cleanup t with rfl | ⟨rfl, rfl⟩ | ⟨e, error⟩
    · obtain ⟨hb, handlers⟩ := List.forall_mem_cons.1 handlers
      show names'.clauses catches cleanup (word "catch" :: a :: f b :: replaceClauses f rest) = _
      rw [clauses_catch, clauses_catch, hb]
      exact bind_congr fun type => bind_congr fun handler => clauses_replace _ _ handlers cleanups
    · obtain ⟨ha, cleanups⟩ := List.forall_mem_cons.1 cleanups
      obtain ⟨hb, cleanups⟩ := List.forall_mem_cons.1 cleanups
      show names'.clauses catches none (word "finally" :: f a :: f b :: replaceClauses f rest) = _
      rw [clauses_finally, clauses_finally, ha, hb]
      exact bind_congr fun start => bind_congr fun stop => clauses_replace _ _ handlers cleanups
    · rw [replaceClauses]
      split <;> rw [error, error]

end

theorem push_try_follows : Form.Follows (fun names clauses => some (names.clauses [] none clauses)) "push_try" where
  targets {names operands i} made := by
    obtain ⟨more, range, rfl, -, handlers, cleanups⟩ := clauses_ok (Option.some.inj made)
    rw [List.nil_append, Option.none_or]
    exact List.rel_append handlers cleanups
  range {names operands i} made := by
    obtain ⟨more, range, rfl, -, -, cleanups⟩ := clauses_ok (Option.some.inj made)
    rw [Option.none_or]
    exact cleanups
  functions {names operands i} made := by
    obtain ⟨more, range, rfl, -⟩ := clauses_ok (Option.some.inj made)
    exact .nil
  replace {names names' operands i f g} targets _ made := by
    have targets : ∀ t ∈ catchOperands operands ++ cleanupOperands operands, names'.target (f t) = names.target t := targets
    rw [← made]
    exact congrArg some (clauses_replace [] none (fun t mem => targets t (List.mem_append_left _ mem))
      fun t mem => targets t (List.mem_append_right _ mem))

/-! ### The table -/

theorem forms_follow : ∀ e ∈ forms, e.2.Follows e.1 := by
  simp only [forms, List.forall_mem_cons]
  refine ⟨?int, ?float, ?char, ?bool, ?string, ?array, ?tuple, ?record, func_follows, ?copy, ?param, ?field, ?element,
    ?index, ?set_field, ?set_index, ?apply, ?call, ?binop, ?before, ?after, ?load_const, ?set_const, ?read_error,
    ?bind, ?resolve, ?push_scope, push_loop_follows, push_try_follows, ?pop, jump_follows,
    branch_follows (by decide) (fun _ _ => rfl) (fun _ _ => rfl) fun _ _ => rfl,
    branch_follows (by decide) (fun _ _ => rfl) (fun _ _ => rfl) fun _ _ => rfl,
    branch_follows (by decide) (fun _ _ => rfl) (fun _ _ => rfl) fun _ _ => rfl,
    ?nop, ?ret, ?throw, ?leave, ?again, nofun⟩
  all_goals refine Form.IsPlain.follows ?_ (by decide)
  case int | float | bool | copy | param | load_const | resolve => exact .assignment₁ fun _ => .bind fun _ => .pure nofun
  case field | element | index | before | after =>
    exact .assignment₂ fun _ _ => .bind fun _ => .bind fun _ => .pure nofun
  case char => exact .charForm
  case record => exact .recordForm
  case array | tuple =>
    refine .assignment fun operands r hr => ?_
    cases hr
    exact .bind fun _ => .pure nofun
  case string =>
    refine .assignment fun operands r hr => ?_
    match operands with
    | [v] =>
      dsimp only at hr
      split at hr
      · cases hr
        exact .pure nofun
      · cases hr
    | [] | _ :: _ :: _ => cases hr
  case read_error =>
    refine .assignment fun operands r hr => ?_
    match operands with
    | [] => cases hr; exact .pure nofun
    | _ :: _ => cases hr
  case apply =>
    refine .assignment fun operands r hr => ?_
    match operands with
    | f :: args => cases hr; exact .bind fun _ => .bind fun _ => .pure nofun
    | [] => cases hr
  case binop =>
    refine .assignment fun operands r hr => ?_
    match operands with
    | [l, op, r] => cases hr; exact .bind fun _ => .bind fun _ => .bind fun _ => .pure nofun
    | [] | [_] | [_, _] | _ :: _ :: _ :: _ :: _ => cases hr
  case call =>
    refine ⟨fun _ _ => rfl, fun names operands r hr => ?_⟩
    match operands with
    | t :: f :: args => cases hr; exact .bind fun _ => .bind fun _ => .bind fun _ => .pure ⟨rfl, rfl⟩
    | [] | [_] => cases hr
  case set_field | set_index =>
    exact .form₃ fun _ _ _ => .bind fun _ => .bind fun _ => .bind fun _ => .pure ⟨rfl, rfl⟩
  case set_const | bind => exact .form₂ fun _ _ => .bind fun _ => .bind fun _ => .pure ⟨rfl, rfl⟩
  case ret | throw | leave | again => exact .form₁ fun _ => .bind fun _ => .pure ⟨rfl, rfl⟩
  case push_scope | pop | nop => exact .plain ⟨rfl, rfl⟩

/-! ## Lines -/

/-- The operands of a line that are jump targets. -/
def lineTargets : List Token → List Token
  | head :: operands => targetOperands head.text operands
  | [] => []

/-- The operands of a line that are the start and the end of a finally range. -/
def lineRange : List Token → List Token
  | head :: operands => rangeOperands head.text operands
  | [] => []

/-- The operands of a line that are functions. -/
def lineFunctions : List Token → List Token
  | head :: operands => functionOperands head.text operands
  | [] => []

/-- The line with other jump targets and functions. -/
def replaceLine (f g : Token → Token) : List Token → List Token
  | head :: operands => head :: replaceOperands f g head.text operands
  | [] => []

section
variable {names names' : Names} {line : List Token} {i : Instruction}

theorem statement_word {mnemonic : String} {form : Form} {operands : List Token}
    (known : forms.lookup mnemonic = some form) :
    statement names (word mnemonic :: operands) = .ok i ↔ form names operands = some (.ok i) := by
  rw [statement, word_bare]
  dsimp only [bind, Except.bind]
  rw [known]
  dsimp only
  cases form names operands with
  | none => exact ⟨nofun, nofun⟩
  | some r => exact ⟨congrArg some, Option.some.inj⟩

/-- An instruction is what the form of its mnemonic makes. -/
theorem statement_ok (h : statement names line = .ok i) : ∃ mnemonic form operands,
    line = word mnemonic :: operands ∧ forms.lookup mnemonic = some form ∧ form names operands = some (.ok i) := by
  cases line with
  | nil => cases h
  | cons head operands =>
    obtain ⟨mnemonic, bare, -⟩ := bind_ok.1 h
    cases bare_ok.1 bare
    cases known : forms.lookup mnemonic with
    | none =>
      rw [statement, word_bare] at h
      dsimp only [bind, Except.bind] at h
      rw [known] at h
      cases h
    | some form => exact ⟨mnemonic, form, operands, rfl, known, (statement_word known).1 h⟩

theorem mem_mnemonics {mnemonic : String} {form : Form} (known : forms.lookup mnemonic = some form) :
    mnemonic ∈ forms.map Prod.fst := by
  obtain ⟨before, after, table, -⟩ := List.lookup_eq_some_iff.1 known
  simp [table]

theorem follows_of_lookup {mnemonic : String} {form : Form} (known : forms.lookup mnemonic = some form) :
    form.Follows mnemonic := by
  obtain ⟨before, after, table, -⟩ := List.lookup_eq_some_iff.1 known
  exact forms_follow (mnemonic, form) (table ▸ List.mem_append_right _ (List.mem_cons_self ..))

theorem isWord_of_lookup {mnemonic : String} {form : Form} (known : forms.lookup mnemonic = some form) :
    IsWord mnemonic.toList := by
  have words : ∀ m ∈ forms.map Prod.fst, IsWord m.toList := by decide
  exact words mnemonic (mem_mnemonics known)

/-- The places that an instruction names are those that the operands of its line stand for. -/
theorem statement_denotes (h : statement names line = .ok i) :
    List.Forall₂ (fun t n => names.target t = .ok n) (lineTargets line) i.targets ∧
      List.Forall₂ (fun t n => names.target t = .ok n) (lineRange line) (rangeEnds i.cleanup) ∧
      List.Forall₂ (fun t n => names.function t = .ok n) (lineFunctions line) i.functions := by
  obtain ⟨mnemonic, form, operands, rfl, known, made⟩ := statement_ok h
  have follows := follows_of_lookup known
  exact ⟨follows.targets made, follows.range made, follows.functions made⟩

/-- Other operands that stand for the same places make the same instruction. -/
theorem statement_replace {f g : Token → Token}
    (targets : ∀ t ∈ lineTargets line, names'.target (f t) = names.target t)
    (functions : ∀ t ∈ lineFunctions line, names'.function (g t) = names.function t)
    (h : statement names line = .ok i) : statement names' (replaceLine f g line) = .ok i := by
  obtain ⟨mnemonic, form, operands, rfl, known, made⟩ := statement_ok h
  exact (statement_word known).2 ((follows_of_lookup known).replace targets functions made)

end

end Assembly

end SlotVM
