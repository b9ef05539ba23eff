/-
What labels and function names stand for. `assemble_denotes`: in a text that assembles, a label stands for the
number of instructions before its definition in its own function, and a name for the position of the function that has
it; with these numbers in their place, and without labels, the text assembles to the same program.
-/
import SlotVM.Proofs.Assembly.Assembles
import SlotVM.Proofs.Assembly.Writer

namespace SlotVM.Assembly

open Decimal Text

/-! ## What operands stand for -/

/-- What a jump target of a function stands for: a number for itself, and any other word for the place where it is
defined as a label of the function. -/
structure FunctionText.Target (t : FunctionText) (operand : Token) (n : Nat) : Prop where
  bare : operand.quote = none
  number : ∀ k, unsigned? operand.text = some k → n = k
  label : unsigned? operand.text = none → ∀ m, t.Defines operand.text m ↔ m = n

/-- What a function operand stands for: a number for itself, and any other name for the position of the function that
has it. -/
structure Callee (ts : List FunctionText) (operand : Token) (id : Nat) : Prop where
  bare : operand.quote = none
  mark : ∃ name, operand.text = "@" ++ name ∧ (∀ k, unsigned? name = some k → id = k) ∧
    (unsigned? name = none → ∀ m, (∃ u, ts[m]? = some u ∧ u.name = name) ↔ m = id)

/-- The function that a text assembles to: its name, its parameters, and for each instruction line the instruction that
it stands for. -/
structure FunctionText.Compiles (ts : List FunctionText) (t : FunctionText) (f : FunctionDef) : Prop where
  name : f.name = t.name
  params : unsigned? t.params = some f.params
  code : List.Forall₂ (fun line i => statement (t.names ts) line = .ok i ∧
    List.Forall₂ t.Target (lineTargets line) i.targets ∧
      List.Forall₂ (Callee ts) (lineFunctions line) i.functions) t.statements f.code.toList

variable {ts : List FunctionText} {t : FunctionText}

theorem target_of_ok (h : t.Sound) {operand : Token} {n : Nat} (ok : (t.names ts).target operand = .ok n) :
    t.Target operand n := by
  obtain ⟨text, bare, read⟩ := bind_ok.1 ok
  cases bare_ok.1 bare
  have found : (unsigned? text).or (t.labels.lookup text) = some n := orError_ok.1 read
  refine ⟨rfl, fun k number => ?_, fun label m => ?_⟩
  · rw [show unsigned? text = some k from number, Option.some_or] at found
    exact (Option.some.inj found).symm
  · rw [show unsigned? text = none from label, Option.none_or] at found
    rw [← lookup_labels h]
    exact ⟨fun other => Option.some.inj (other.symm.trans found), fun same => same ▸ found⟩

/-- The operand of a function begins with a mark. -/
theorem function_ok {names : Names} {operand : Token} {id : Nat} (ok : names.function operand = .ok id) :
    ∃ name, operand = word ("@" ++ name) ∧ (unsigned? name).or (names.functions.lookup name) = some id := by
  obtain ⟨text, bare, read⟩ := bind_ok.1 ok
  cases bare_ok.1 bare
  split at read
  · rename_i rest chars
    refine ⟨String.ofList rest, congrArg word (String.toList_inj.1 ?_), orError_ok.1 read⟩
    rw [chars, String.toList_append]
    show '@' :: rest = '@' :: (String.ofList rest).toList
    rw [String.toList_ofList]
  · cases read

theorem callee_of_ok (h : (ts.map FunctionText.name).Nodup) {operand : Token} {id : Nat}
    (ok : (t.names ts).function operand = .ok id) : Callee ts operand id := by
  obtain ⟨name, rfl, found⟩ := function_ok ok
  refine ⟨rfl, name, rfl, fun k number => ?_, fun symbol m => ?_⟩
  · rw [number, Option.some_or] at found
    exact (Option.some.inj found).symm
  · rw [symbol, Option.none_or] at found
    rw [← lookup_functions h]
    exact ⟨fun other => Option.some.inj (other.symm.trans found), fun same => same ▸ found⟩

theorem FunctionText.Means.compiles {f : FunctionDef} (h : t.Means ts f) (sound : t.Sound)
    (names : (ts.map FunctionText.name).Nodup) : t.Compiles ts f where
  name := h.name
  params := h.params
  code := h.code.imp fun line i made => by
    obtain ⟨targets, -, functions⟩ := statement_denotes made
    exact ⟨made, targets.imp fun _ _ => target_of_ok sound, functions.imp fun _ _ => callee_of_ok names⟩

/-! ## Texts without symbols -/

/-- The number of instructions before the definition of a label. -/
def FunctionText.position? (t : FunctionText) (label : String) : Option Nat :=
  (t.body.findIdx? (· = [word (label ++ ":")])).map fun k => ((t.body.take k).filter isStatement).length

/-- A jump target with the position of its label in its place. -/
def FunctionText.resolveTarget (t : FunctionText) (operand : Token) : Token :=
  match unsigned? operand.text, t.position? operand.text with
  | none, some n => numberToken n
  | _, _ => operand

/-- The name that a function operand has after its mark. -/
def Token.callee (operand : Token) : String := String.ofList operand.text.toList.tail

/-- A function operand with the position of the function in the place of its name. -/
def resolveFunction (ts : List FunctionText) (operand : Token) : Token :=
  match unsigned? operand.callee, ts.findIdx? (·.name = operand.callee) with
  | none, some id => functionToken id
  | _, _ => operand

/-- The function with positions for labels and names, and without the lines of labels. -/
def FunctionText.resolved (ts : List FunctionText) (t : FunctionText) : FunctionText :=
  { t with body := t.statements.map (replaceLine t.resolveTarget (resolveFunction ts)) }

/-- The lines of a text with positions for labels and names, and without the lines of labels. -/
def resolvedLines (ts : List FunctionText) : List (List Token) := ts.flatMap fun t => (t.resolved ts).lines

theorem position?_of_defines {label : String} {n : Nat} (h : ∀ m, t.Defines label m ↔ m = n) :
    t.position? label = some n := by
  obtain ⟨before, after, body, ne, -⟩ := (h n).2 rfl
  have mem : [word (label ++ ":")] ∈ t.body := body ▸ List.mem_append_right _ (List.mem_cons_self ..)
  unfold FunctionText.position?
  cases first : t.body.findIdx? (· = [word (label ++ ":")]) with
  | none =>
    have absent := List.findIdx?_eq_none_iff.1 first _ mem
    simp at absent
  | some k =>
    obtain ⟨hk, found, -⟩ := List.findIdx?_eq_some_iff_getElem.1 first
    refine congrArg some ((h _).1 ⟨t.body.take k, t.body.drop (k + 1), ?_, ne, rfl⟩)
    rw [← of_decide_eq_true found, ← List.drop_eq_getElem_cons hk, List.take_append_drop]

theorem findIdx?_of_callee {name : String} {id : Nat} (h : ∀ m, (∃ u, ts[m]? = some u ∧ u.name = name) ↔ m = id) :
    ts.findIdx? (·.name = name) = some id := by
  obtain ⟨u, hu, rfl⟩ := (h id).2 rfl
  cases first : ts.findIdx? (·.name = u.name) with
  | none =>
    have absent := List.findIdx?_eq_none_iff.1 first u (List.mem_of_getElem? hu)
    simp at absent
  | some k =>
    obtain ⟨hk, found, -⟩ := List.findIdx?_eq_some_iff_getElem.1 first
    exact congrArg some ((h k).1 ⟨ts[k], List.getElem?_eq_getElem hk, of_decide_eq_true found⟩)

/-! ### They stand for the same -/

theorem callee_of_mark {operand : Token} {name : String} (mark : operand.text = "@" ++ name) : operand.callee = name := by
  unfold Token.callee
  rw [mark, String.toList_append]
  show String.ofList name.toList = name
  rw [String.ofList_toList]

theorem eq_word {operand : Token} {text : String} (bare : operand.quote = none) (same : operand.text = text) :
    operand = word text := by
  obtain ⟨_, _⟩ := operand
  cases bare
  exact congrArg word same

/-- A position is written and read back. -/
theorem target_resolve {names : Names} {operand : Token} {n : Nat} (h : t.Target operand n)
    (fits : unsigned? operand.text = none → n < unsignedLimit) :
    names.target (t.resolveTarget operand) = .ok n := by
  obtain ⟨bare, number, label⟩ := h
  unfold FunctionText.resolveTarget
  cases read : unsigned? operand.text with
  | some k =>
    obtain rfl := number k read
    show names.target operand = _
    rw [eq_word bare rfl, target_word, read]; rfl
  | none =>
    rw [position?_of_defines (label read)]
    exact target_numberToken (fits read) names

theorem function_resolve {names : Names} {operand : Token} {id : Nat} (h : Callee ts operand id)
    (fits : ts.length < unsignedLimit) : names.function (resolveFunction ts operand) = .ok id := by
  obtain ⟨bare, name, mark, number, symbol⟩ := h
  unfold resolveFunction
  rw [callee_of_mark mark]
  cases read : unsigned? name with
  | some k =>
    obtain rfl := number k read
    show names.function operand = _
    rw [eq_word bare mark, function_word, read]; rfl
  | none =>
    obtain ⟨u, hu, -⟩ := (symbol read id).2 rfl
    have position : id < ts.length := (List.getElem?_eq_some_iff.1 hu).1
    rw [findIdx?_of_callee (symbol read)]
    exact function_functionToken (Nat.lt_trans position fits) names

/-! ### Positions are small -/

theorem length_lines_le (cs : List Char) : (lines cs).length ≤ cs.length := by
  fun_induction lines cs <;> simp_all <;> omega

/-- A label stands for an instruction of its function, or for the end. -/
theorem FunctionText.Defines.le {label : String} {n : Nat} (h : t.Defines label n) : n ≤ t.statements.length := by
  obtain ⟨before, after, body, -, rfl⟩ := h
  simp [FunctionText.statements, body]

theorem Layout.length_le {source : String} (h : Layout source ts) :
    (ts.flatMap FunctionText.lines).length ≤ source.length := by
  obtain ⟨ls, read, filled⟩ := h.lines
  calc (ts.flatMap FunctionText.lines).length = (ls.filter (!·.isEmpty)).length := by rw [filled]
    _ ≤ ls.length := List.length_filter_le _ ls
    _ = (Text.lines source.toList).length := ((mapM_eq_ok_iff.1 read).length_eq).symm
    _ ≤ source.toList.length := length_lines_le _
    _ = source.length := String.length_toList

/-- A text of fewer characters than there are numbers has no position that cannot be written. -/
structure Small (ts : List FunctionText) : Prop where
  functions : ts.length < unsignedLimit
  bodies : ∀ t ∈ ts, t.body.length < unsignedLimit

theorem length_le_lines : ts.length ≤ (ts.flatMap FunctionText.lines).length := by
  induction ts with
  | nil => simp
  | cons t ts ih =>
    simp only [List.flatMap_cons, List.length_append, List.length_cons, FunctionText.lines, FunctionText.opening]
    omega

theorem Layout.small {source : String} (h : Layout source ts) (fits : source.length < unsignedLimit) : Small ts := by
  have total := h.length_le
  constructor
  · exact Nat.lt_of_le_of_lt (Nat.le_trans length_le_lines total) fits
  · intro t mem
    obtain ⟨before, after, rfl⟩ := List.append_of_mem mem
    simp only [List.flatMap_append, List.flatMap_cons, List.length_append, List.length_cons, FunctionText.lines,
      FunctionText.opening] at total
    omega

/-! ### They assemble to the same program -/

theorem resolved_spells {f : FunctionDef} (h : t.Means ts f) (sound : t.Sound) (names : (ts.map FunctionText.name).Nodup)
    (small : Small ts) (mem : t ∈ ts) : (t.resolved ts).Spells (ts.map (FunctionText.resolved ts)) f where
  name := h.name
  params := h.params
  code := by
    rw [List.map_map]
    refine List.forall₂_map_left_iff.2 (h.code.imp fun line i made => ?_)
    obtain ⟨targets, -, functions⟩ := statement_denotes made
    refine statement_replace (fun operand hoperand => ?_) (fun operand hoperand => ?_) made
    · obtain ⟨n, -, denotes⟩ := exists_of_forall₂ targets operand hoperand
      have target := target_of_ok sound denotes
      rw [denotes]
      refine target_resolve target fun label => ?_
      calc n ≤ t.statements.length := ((target.label label n).2 rfl).le
        _ ≤ t.body.length := List.length_filter_le ..
        _ < unsignedLimit := small.bodies t mem
    · obtain ⟨id, -, denotes⟩ := exists_of_forall₂ functions operand hoperand
      have callee := callee_of_ok names denotes
      rw [denotes]
      exact function_resolve callee small.functions

theorem forall_replaceClauses {P : Token → Prop} {f : Token → Token} (hf : ∀ x, P x → P (f x)) {ts : List Token}
    (h : ∀ x ∈ ts, P x) : ∀ x ∈ replaceClauses f ts, P x := by
  fun_induction replaceClauses f ts with
  | case1 t a b rest is_catch ih =>
    simp only [List.forall_mem_cons] at h ⊢
    exact ⟨h.1, h.2.1, hf b h.2.2.1, ih h.2.2.2⟩
  | case2 t a b rest not_catch ih =>
    simp only [List.forall_mem_cons] at h ⊢
    exact ⟨h.1, hf a h.2.1, hf b h.2.2.1, ih h.2.2.2⟩
  | case3 rest => exact h

/-- Replacing operands keeps what holds of all tokens. -/
theorem forall_replaceLine {P : Token → Prop} {f g : Token → Token} (hf : ∀ x, P x → P (f x)) (hg : ∀ x, P x → P (g x))
    {line : List Token} (h : ∀ x ∈ line, P x) : ∀ x ∈ replaceLine f g line, P x := by
  cases line with
  | nil => exact h
  | cons head operands =>
    obtain ⟨hhead, hoperands⟩ := List.forall_mem_cons.1 h
    refine List.forall_mem_cons.2 ⟨hhead, ?_⟩
    unfold replaceOperands
    split
    case h_3 => exact forall_replaceClauses hf hoperands
    case h_8 => exact hoperands
    all_goals
      simp only [List.forall_mem_cons] at hoperands ⊢
      simp_all

theorem Layout.writable {source : String} (h : Layout source ts) :
    ∀ t ∈ ts, ∀ line ∈ t.lines, ∀ token ∈ line, token.Writable := by
  obtain ⟨ls, read, mem⟩ := h.mem_lines
  intro t ht line hline
  obtain ⟨text, -, tokens⟩ := exists_of_forall₂ (mapM_eq_ok_iff.1 read).flip line (mem t ht line hline)
  exact tokenize_writable tokens

theorem resolved_writable (h : ∀ line ∈ t.lines, ∀ token ∈ line, token.Writable) :
    ∀ line ∈ (t.resolved ts).lines, ∀ token ∈ line, token.Writable := by
  obtain ⟨opening, last⟩ := List.forall_mem_append.1 h
  obtain ⟨head, body⟩ := List.forall_mem_cons.1 opening
  refine List.forall_mem_append.2 ⟨List.forall_mem_cons.2 ⟨head, List.forall_mem_map.2 fun line mem => ?_⟩, last⟩
  refine forall_replaceLine (fun operand writable => ?_) (fun operand writable => ?_) (body line (List.mem_filter.1 mem).1)
  · unfold FunctionText.resolveTarget
    split
    · exact writable_numberToken _
    · exact writable
  · unfold resolveFunction
    split
    · exact writable_functionToken _
    · exact writable

/-- What a text says that assembles. A text that is held in memory has fewer characters than there are machine words,
so that all its positions can be written. -/
structure Denotes (source : String) (ts : List FunctionText) (p : Program) : Prop where
  layout : Layout source ts
  functions : List.Forall₂ (FunctionText.Compiles ts) ts p.functions.toList
  /-- Every text with these lines, wherever it has blanks and comments. -/
  resolved : source.length < unsignedLimit → ∀ source' ls, tokenLines source' = .ok ls →
    ls.filter (!·.isEmpty) = resolvedLines ts → assemble source' = .ok p
  written : source.length < unsignedLimit → assemble (spellLines (resolvedLines ts)) = .ok p

/-- In a text that assembles, labels and names stand for positions, and can be replaced by them. -/
theorem assemble_denotes {source : String} {p : Program} (h : assemble source = .ok p) : ∃ ts, Denotes source ts p := by
  obtain ⟨ts, layout, means⟩ := assemble_ok_iff.1 h
  have lines : resolvedLines ts = (ts.map (FunctionText.resolved ts)).flatMap FunctionText.lines := by
    rw [resolvedLines, List.flatMap_map]
  have nonempty : ts.map (FunctionText.resolved ts) ≠ [] := mt List.map_eq_nil_iff.1 layout.nonempty
  have names : ((ts.map (FunctionText.resolved ts)).map FunctionText.name).Nodup := by
    rw [List.map_map]
    exact layout.names
  have each := forall₂_mem means
  have spells (fits : source.length < unsignedLimit) : List.Forall₂
      (FunctionText.Spells (ts.map (FunctionText.resolved ts))) (ts.map (FunctionText.resolved ts)) p.functions.toList :=
    List.forall₂_map_left_iff.2 (each.imp fun t f ⟨mem, means⟩ =>
      resolved_spells means (layout.sound t mem) layout.names (layout.small fits) mem)
  refine ⟨ts, layout, ?compiles, fun fits source' ls read resolved => ?resolved, fun fits => ?written⟩
  case compiles => exact each.imp fun t f ⟨mem, means⟩ => means.compiles (layout.sound t mem) layout.names
  case resolved => exact assemble_of_spells nonempty names (spells fits) read (resolved.trans lines)
  case written =>
    rw [lines]
    refine assemble_spellLines nonempty names (spells fits) (List.forall_mem_map.2 fun t mem => ?_)
    exact resolved_writable (layout.writable t mem)

/-- A text with a label and a function that are used before they are defined, a label in the end, and one label in
two functions. -/
def symbolicText : String :=
  "fn main 0\nfunc r0 @f # ahead\nl:\npush_try catch any l finally l m\nm:\n\nend\nfn f 1\nl:\njump l\njump 9\nend"

/-- The program that it assembles to. -/
def resolvedProgram : Program :=
  ⟨#[⟨"main", 0, #[.assign 0 (.function 1), .pushTry [⟨.any, 1⟩] (some ⟨1, 2⟩)]⟩, ⟨"f", 1, #[.jump 0, .jump 9]⟩]⟩

set_option maxRecDepth 2000 in
theorem assemble_denotes_ahead :
    assemble symbolicText = .ok resolvedProgram ∧ ∃ ts, Denotes symbolicText ts resolvedProgram := by
  have assembles : assemble symbolicText = .ok resolvedProgram := by
    rw [assemble_eq]; rfl
  exact ⟨assembles, assemble_denotes assembles⟩

end SlotVM.Assembly
