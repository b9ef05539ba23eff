/-
Programs written as text. `assemble_text`: the text of a program assembles to the program, wherever the finally
clauses of its try constructs stand among the catch clauses.
-/
import SlotVM.Proofs.Assembly.Assembles
import SlotVM.Proofs.Assembly.Writer

namespace SlotVM

open Assembly Decimal

variable {floatText : Float → String}

/-! ## Texts of programs -/

/-- The text of a function. The finally clause of the instruction at `pc`, if it has one, stands after `place pc`
catch clauses. -/
def FunctionDef.written (floatText : Float → String) (place : Nat → Nat) (f : FunctionDef) : FunctionText where
  name := f.name
  params := toString f.params
  body := f.code.toList.mapIdx fun pc i => i.line floatText (place pc)

/-- The texts of the functions of a program. -/
def Program.written (floatText : Float → String) (place : Nat → Nat → Nat) (p : Program) : List FunctionText :=
  p.functions.toList.mapIdx fun id f => f.written floatText (place id)

/-- The text of a program: its functions one after the other, from `fn` to `end`. -/
def Program.text (floatText : Float → String) (place : Nat → Nat → Nat) (p : Program) : String :=
  spellLines ((p.written floatText place).flatMap FunctionText.lines)

/-- What can be written of a function. -/
structure FunctionDef.Spellable (floatText : Float → String) (f : FunctionDef) : Prop where
  name : IsWord f.name.toList
  params : f.params < unsignedLimit
  numbers : ∀ i ∈ f.code.toList, ∀ n ∈ i.numbers, n < unsignedLimit
  code : ∀ i ∈ f.code.toList, i.Spellable floatText

/-- A program that can be written: it has a function, functions have distinct names, and all numbers are machine
words. -/
structure Program.Spellable (floatText : Float → String) (p : Program) : Prop where
  nonempty : p.functions ≠ #[]
  names : (p.functions.toList.map FunctionDef.name).Nodup
  functions : ∀ f ∈ p.functions.toList, f.Spellable floatText

/-! ## Reading them -/

/-- A relation of a list and what a function makes of its elements and their positions. -/
theorem forall₂_mapIdx {α β : Type} {R : β → α → Prop} {l : List α} {f : Nat → α → β} (h : ∀ k, ∀ x ∈ l, R (f k x) x) :
    List.Forall₂ R (l.mapIdx f) l := by
  induction l generalizing f with
  | nil => exact .nil
  | cons x l ih =>
    rw [List.mapIdx_cons]
    exact .cons (h 0 x (List.mem_cons_self ..)) (ih fun k y mem => h (k + 1) y (List.mem_cons_of_mem _ mem))

theorem FunctionDef.Spellable.spells {f : FunctionDef} (h : f.Spellable floatText) (ts : List FunctionText)
    (place : Nat → Nat) : (f.written floatText place).Spells ts f where
  name := rfl
  params := unsigned?_toString h.params
  code := forall₂_mapIdx fun pc i mem => statement_line _ (h.numbers i mem) (h.code i mem) (place pc)

theorem FunctionDef.Spellable.writable {f : FunctionDef} (h : f.Spellable floatText) (place : Nat → Nat) :
    ∀ line ∈ (f.written floatText place).lines, ∀ t ∈ line, t.Writable := by
  refine List.forall_mem_append.2 ⟨List.forall_mem_cons.2 ⟨?head, ?body⟩, List.forall_mem_singleton.2 ?last⟩
  case head =>
    simp only [List.forall_mem_cons]
    exact ⟨writable_word (by decide), writable_word h.name, writable_numberToken f.params, nofun⟩
  case body =>
    intro line mem
    obtain ⟨pc, hpc, rfl⟩ := List.mem_mapIdx.1 mem
    have mem := List.getElem_mem hpc
    exact writable_line (h.numbers _ mem) (h.code _ mem) (place pc)
  case last => exact List.forall_mem_singleton.2 (writable_word (by decide))

namespace Program.Spellable

variable {p : Program} (h : p.Spellable floatText) (place : Nat → Nat → Nat)
include h

theorem spells (ts : List FunctionText) :
    List.Forall₂ (FunctionText.Spells ts) (p.written floatText place) p.functions.toList :=
  forall₂_mapIdx fun id f mem => (h.functions f mem).spells ts (place id)

theorem written_names : (p.written floatText place).map FunctionText.name = p.functions.toList.map FunctionDef.name := by
  rw [← List.forall₂_eq_eq_eq, List.forall₂_map_left_iff, List.forall₂_map_right_iff]
  exact (h.spells place []).imp fun t f spells => spells.name.symm

theorem written_ne_nil : p.written floatText place ≠ [] := by
  intro empty
  have none := h.spells place []
  rw [empty, List.forall₂_nil_left_iff] at none
  exact h.nonempty (Array.toList_eq_nil_iff.1 none)

end Program.Spellable

/-- The text of a program assembles to the program. -/
theorem Program.assemble_text {p : Program} (h : p.Spellable floatText) (place : Nat → Nat → Nat) :
    assemble (p.text floatText place) = .ok p := by
  refine assemble_spellLines (h.written_ne_nil place) ?_ (h.spells place _) fun t mem => ?_
  · rw [h.written_names]
    exact h.names
  · obtain ⟨id, hid, rfl⟩ := List.mem_mapIdx.1 mem
    exact (h.functions _ (List.getElem_mem hid)).writable (place id)

/-- A program with a finally clause between two catch clauses, a number, characters that are escaped, fields with
and without a name, and a function that is used before it is defined. -/
def spelledProgram : Program := ⟨#[
  ⟨"main", 0, #[.pushTry [⟨.any, 1⟩, ⟨.kind .integer, 2⟩] (some ⟨2, 3⟩), .assign 0 (.float (.ofBits 0)),
    .assign 1 (.string "a, \"b\"\n# \\"), .assign 2 (.char '\''), .assign 3 (.record [("", 0), ("x", 1)]),
    .assign 4 (.function 1), .assign 5 (.binary 0 ⟨.plus, .between⟩ 1), .bind "fn" 0, .ret 5]⟩,
  ⟨"end", 1, #[.assign 0 (.integer (-1)), .branch false 0 2]⟩]⟩

theorem Program.assemble_text_cleanupBetween : spelledProgram.Spellable (fun _ => "0.0") ∧
    spelledProgram.text (fun _ => "0.0") (fun _ _ => 1) = "fn main 0\npush_try catch any 1 finally 2 3 catch integer 2
float r0 0.0\nstring r1 \"a, \\\"b\\\"\\n# \\\\\"\nchar r2 '\\''\nstruct r3 =r0 x=r1\nfunc r4 @1\nbinop r5 r0 + r1\nbind fn r0
return r5\nend\nfn end 1\nint r0 -1\nbr_false r0 2\nend\n" ∧
    assemble (spelledProgram.text (fun _ => "0.0") fun _ _ => 1) = .ok spelledProgram := by
  have spellable : spelledProgram.Spellable (fun _ => "0.0") := by
    refine ⟨by simp [spelledProgram], by decide, ?_⟩
    have numbers : ∀ f ∈ spelledProgram.functions.toList, ∀ i ∈ f.code.toList, ∀ n ∈ i.numbers, n < unsignedLimit := by
      decide
    have heads : ∀ f ∈ spelledProgram.functions.toList, IsWord f.name.toList ∧ f.params < unsignedLimit := by decide
    have zero : float? "0.0" = some (.ofBits 0) := by rfl
    have fields : IsFieldName "" ∧ IsFieldName "x" := by decide
    have name : IsWord "fn".toList := by decide
    refine fun f mem => ⟨(heads f mem).1, (heads f mem).2, numbers f mem, ?_⟩
    revert f
    simp only [spelledProgram, List.forall_mem_cons, Instruction.Spellable, Source.Spellable, true_and]
    exact ⟨⟨zero, ⟨fields.1, fields.2, nofun⟩, name, nofun⟩, nofun, nofun⟩
  exact ⟨spellable, by decide +kernel, Program.assemble_text spellable fun _ _ => 1⟩

end SlotVM
