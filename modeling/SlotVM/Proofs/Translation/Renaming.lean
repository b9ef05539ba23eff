/-
The numbers of slots mean nothing. If every slot that a program mentions gets another number, no two of them
the same, the program runs as before, step by step, with the renamed slots in place of the others; the slots
that hold the arguments follow those of the program in both. `renamed_steps` says it for every number of steps.
-/
import SlotVM.Proofs.Translation.Lockstep

namespace SlotVM

open Relator

/-! ## Renamed programs -/

namespace Program

/-- The program that mentions other slots. -/
def rename (slot : Nat → Nat) (p : Program) : Program :=
  ⟨p.functions.map fun f => { f with code := f.code.map (·.translate slot id) }⟩

/-- The slots that a run with the given number of arguments uses: those that the program mentions, and those
of the arguments, which follow them. -/
def Uses (p : Program) (arguments id : Nat) : Prop :=
  id ∈ p.refs ∨ (p.slotCount ≤ id ∧ id < p.slotCount + arguments)

/-- Where a slot of a run is found in a run of the renamed program. -/
def renamed (p : Program) (slot : Nat → Nat) (id : Nat) : Nat :=
  if id < p.slotCount then slot id else (p.rename slot).slotCount + (id - p.slotCount)

end Program

namespace Machine

/-- The machine `m'` is `m` with every slot renamed. -/
structure Renamed (p : Program) (slot : Nat → Nat) (arguments : Nat) (m m' : Machine) : Prop where
  function : m'.function = m.function
  pc : m'.pc = m.pc
  depth : m'.stack.depth = m.stack.depth
  active : m'.pending.isActive = m.pending.isActive
  slots : ∀ id, p.Uses arguments id →
    m'.slots.get? (p.renamed slot id) = (m.slots.get? id).map (Value.rename (p.renamed slot))
  /-- No other slot is written. -/
  written : ∀ id v, m.slots.get? id = some v → p.Uses arguments id
  written' : ∀ id v, m'.slots.get? id = some v → ∃ a, p.Uses arguments a ∧ p.renamed slot a = id
  constants : ∀ id, m'.constants.get? id = (m.constants.get? id).map (Value.rename (p.renamed slot))
  error : m'.pending.error? = m.pending.error?.map (Value.rename (p.renamed slot))
  returned : m'.returned = m.returned.map (Value.rename (p.renamed slot))
  outcome : m'.outcome = m.outcome.map (Outcome.rename (p.renamed slot))

end Machine

variable {p p' : Program} {slot : Nat → Nat} {n : Nat}

/-! ## Slots of a program -/

namespace Program

theorem refs_rename (p : Program) (slot : Nat → Nat) : (p.rename slot).refs = p.refs.map slot := by
  unfold refs rename
  simp only [Array.toList_map, List.flatMap_map, List.map_flatMap, Instruction.refs_translate]

theorem renamed_of_mem {r : Nat} (hr : r ∈ p.refs) : p.renamed slot r = slot r := if_pos (lt_slotCount hr)

theorem renamed_lt {r : Nat} (hr : r ∈ p.refs) : p.renamed slot r < (p.rename slot).slotCount := by
  rw [renamed_of_mem hr]
  exact lt_slotCount (by rw [refs_rename]; exact List.mem_map_of_mem hr)

theorem renamed_of_le {id : Nat} (h : p.slotCount ≤ id) :
    p.renamed slot id = (p.rename slot).slotCount + (id - p.slotCount) := if_neg (Nat.not_lt.2 h)

/-- No two slots of a run get the same number. -/
theorem renamed_inj (inj : ∀ a ∈ p.refs, ∀ b ∈ p.refs, slot a = slot b → a = b) {a b : Nat} (ha : p.Uses n a)
    (hb : p.Uses n b) (h : p.renamed slot a = p.renamed slot b) : a = b := by
  rcases ha with ha | ⟨ha, -⟩
  · have hlt : p.renamed slot a < _ := renamed_lt ha
    rcases hb with hb | ⟨hb, -⟩
    · rw [renamed_of_mem ha, renamed_of_mem hb] at h
      exact inj a ha b hb h
    · rw [renamed_of_le hb] at h
      omega
  · rcases hb with hb | ⟨hb, -⟩
    · have hlt : p.renamed slot b < _ := renamed_lt hb
      rw [renamed_of_le ha] at h
      omega
    · rw [renamed_of_le ha, renamed_of_le hb] at h
      omega

/-- A slot of a run, and that of the renamed program which stands for it. -/
def Renames (p : Program) (slot : Nat → Nat) (arguments a b : Nat) : Prop :=
  p.Uses arguments a ∧ b = p.renamed slot a

/-- The renaming of a program, as a translation that leaves everything in its place. -/
def slotTranslation (p : Program) (slot : Nat → Nat) (arguments : Nat) : Translation where
  slot
  goal _ t := t
  ref := p.Renames slot arguments
  place _ a b := b = a
  code _ a b := b = a
  slots s s' :=
    (∀ a b, p.Renames slot arguments a b → Option.Rel (Value.Alike (p.Renames slot arguments)) (s.get? a) (s'.get? b)) ∧
    (∀ a v, s.get? a = some v → p.Uses arguments a) ∧
    ∀ b v, s'.get? b = some v → ∃ a, p.Renames slot arguments a b

theorem Renames.unique (inj : ∀ a ∈ p.refs, ∀ b ∈ p.refs, slot a = slot b → a = b) :
    BiUnique (p.Renames slot n) := by
  constructor
  · rintro a b c ⟨ha, rfl⟩ ⟨hb, h⟩
    exact renamed_inj inj ha hb h
  · rintro a b c ⟨-, rfl⟩ ⟨-, rfl⟩
    rfl

theorem slotTranslation_sound (inj : ∀ a ∈ p.refs, ∀ b ∈ p.refs, slot a = slot b → a = b) :
    (p.slotTranslation slot n).Sound p (p.rename slot) where
  unique := Renames.unique inj
  read h := h.1
  write := by
    rintro s s' a b v w ⟨hread, hs, hs'⟩ hab hvw
    refine ⟨?_, ?_, ?_⟩
    · intro c d hcd
      have heq : c = a ↔ d = b := rel_eq (Renames.unique inj) hcd hab
      rw [Slots.get?_write, Slots.get?_write]
      by_cases hc : c = a
      · rw [if_pos hc, if_pos (heq.1 hc)]
        exact .some hvw
      · rw [if_neg hc, if_neg (hc ∘ heq.2)]
        exact hread c d hcd
    · intro c x hc
      rw [Slots.get?_write] at hc
      split at hc
      · rename_i heq
        exact heq ▸ hab.1
      · exact hs c x hc
    · intro d x hd
      rw [Slots.get?_write] at hd
      split at hd
      · rename_i heq
        exact ⟨a, heq ▸ hab⟩
      · exact hs' d x hd
  start _ := rfl
  goal _ _ := rfl
  code h := h
  next h := congrArg (· + 1) h
  stop h s := by rw [h]; rfl
  function := by
    intro f d hd
    refine ⟨{ d with code := d.code.map (·.translate slot id) }, ?_, rfl, ?_⟩
    · rw [rename, Array.getElem?_map, hd]; rfl
    · rintro a b rfl
      exact Array.getElem?_map ..
  noFunction := by
    intro f hf
    rw [rename, Array.getElem?_map, hf]; rfl
  refs at_ r hr := ⟨.inl (mem_refs at_ hr), (renamed_of_mem (mem_refs at_ hr)).symm⟩

end Program

/-! ## What alike machines tell of slots -/

namespace Machine

variable {m m' : Machine}

/-- Alike machines are the same but for the names of the slots. -/
theorem Alike.renamed (h : m.Alike (p.slotTranslation slot n) m') : Renamed p slot n m m' := by
  have function (a b : Nat) (hab : p.Renames slot n a b) : b = p.renamed slot a := hab.2
  constructor
  · exact h.function
  · exact h.pc
  · exact h.depth_eq
  · exact h.pending.isActive_eq
  · intro id used
    exact eq_map_of_alike function (h.slots.1 id _ ⟨used, rfl⟩)
  · exact h.slots.2.1
  · intro id v hv
    obtain ⟨a, used, rfl⟩ := h.slots.2.2 id v hv
    exact ⟨a, used, rfl⟩
  · intro id
    exact eq_map_of_alike function (h.constants.get? id)
  · exact eq_map_of_alike function h.pending.error?
  · exact eq_map_of_alike function h.returned
  · exact h.outcome_eq function

end Machine

/-! ## The beginning of a run -/

theorem forall₂_range' {R : Nat → Nat → Prop} {a b : Nat} : ∀ {k : Nat}, (∀ i < k, R (a + i) (b + i)) →
    List.Forall₂ R (List.range' a k) (List.range' b k)
  | 0, _ => .nil
  | k + 1, h => by
    refine .cons (h 0 (Nat.succ_pos k)) (forall₂_range' fun i hi => ?_)
    have := h (i + 1) (by omega)
    rwa [Nat.add_comm i 1, ← Nat.add_assoc, ← Nat.add_assoc] at this

namespace Program

theorem renames_argument {i : Nat} (hi : i < n) :
    p.Renames slot n (p.slotCount + i) ((p.rename slot).slotCount + i) := by
  refine ⟨.inr ⟨Nat.le_add_right .., by omega⟩, ?_⟩
  rw [renamed_of_le (Nat.le_add_right ..)]
  omega

theorem slots_started (slot : Nat → Nat) (args : List String) :
    (p.slotTranslation slot args.length).slots ((Machine.ready p).started args).slots
      ((Machine.ready (p.rename slot)).started args).slots := by
  have read (q : Program) (id : Nat) : ((Machine.ready q).started args).slots.get? id =
      if id < q.slotCount then none else args[id - q.slotCount]?.map .string := by
    show (args.foldl _ (Slots.empty q.slotCount)).get? id = _
    rw [Slots.get?_allocated, Slots.size_empty, Slots.get?_empty]
  have used {i : Nat} {v : Value} (h : args[i]?.map Value.string = some v) : i < args.length := by
    obtain ⟨a, ha, -⟩ := Option.map_eq_some_iff.1 h
    exact (List.getElem?_eq_some_iff.1 ha).1
  refine ⟨?_, ?_, ?_⟩
  · rintro a b ⟨ha, rfl⟩
    rw [read, read]
    rcases ha with ha | ⟨ha, -⟩
    · rw [if_pos (lt_slotCount ha), if_pos (renamed_lt ha)]
      exact .none
    · rw [if_neg (Nat.not_lt.2 ha), renamed_of_le ha, if_neg (by omega), Nat.add_sub_cancel_left]
      cases args[a - p.slotCount]? with
      | none => exact .none
      | some s => exact .some (.primitive (v := .string s) trivial)
  · intro a v ha
    rw [read] at ha
    split at ha
    · cases ha
    · have := used ha
      exact .inr ⟨by omega, by omega⟩
  · intro b v hb
    rw [read] at hb
    split at hb
    · cases hb
    · rename_i past
      have argument : p.Renames slot args.length _ _ := renames_argument (used hb)
      rw [Nat.add_sub_cancel' (Nat.not_lt.1 past)] at argument
      exact ⟨_, argument⟩

end Program

namespace Machine

/-- A valid program and the program with renamed slots take the same steps, whatever the arguments are. -/
theorem renamed_steps {p : Program} {slot : Nat → Nat} (valid : p.Valid)
    (inj : ∀ a ∈ p.refs, ∀ b ∈ p.refs, slot a = slot b → a = b) (args : List String) (limit n : Nat) :
    let run := ((ready p).started args).steps p limit n 0
    let run' := ((ready (p.rename slot)).started args).steps (p.rename slot) limit n 0
    run'.1 = run.1 ∧ Both (Renamed p slot args.length) run.2 run'.2 := by
  intro run run'
  have reach : Reachable p ((ready p).started args) := .start .ready rfl
  have sound := Program.slotTranslation_sound (n := args.length) inj
  have start := started_alike sound (Program.slots_started slot args) (forall₂_range' fun _ => Program.renames_argument)
  obtain ⟨count, both⟩ := start.steps sound valid id limit reach
  exact ⟨count, both.imp fun x y h => h.renamed⟩

/-- A program that returns an array of its first argument and of the array of all its arguments. -/
def gatherArguments : Program :=
  ⟨#[⟨"main", 1, #[.assign 0 (.param 0), .assign 2 (.element 0 0), .assign 5 (.array [2, 0]), .ret 5]⟩]⟩

/-- The same program with its slots counted from the other end. -/
def gatherArgumentsBackwards : Program :=
  ⟨#[⟨"main", 1, #[.assign 7 (.param 0), .assign 5 (.element 7 0), .assign 2 (.array [5, 7]), .ret 2]⟩]⟩

theorem rename_gatherArguments : gatherArguments.rename (7 - ·) = gatherArgumentsBackwards := by
  simp [Program.rename, gatherArguments, gatherArgumentsBackwards, Instruction.translate, Source.translate]

/-- The argument, in slot 6 of one run, is in slot 8 of the other. -/
theorem renamed_steps_gatherArguments :
    ∃ m m', ((ready gatherArguments).started ["x"]).steps gatherArguments 10 10 0 = (4, .ok m) ∧
      ((ready gatherArgumentsBackwards).started ["x"]).steps gatherArgumentsBackwards 10 10 0 = (4, .ok m') ∧
      Renamed gatherArguments (7 - ·) 1 m m' ∧
      m.outcome = .ok (.returned (some (.array [2, 0]))) ∧ m'.outcome = .ok (.returned (some (.array [5, 7]))) ∧
      m.slots.get? 0 = some (.array [6]) ∧ m'.slots.get? 7 = some (.array [8]) := by
  have inj : ∀ a ∈ gatherArguments.refs, ∀ b ∈ gatherArguments.refs, 7 - a = 7 - b → a = b := by decide
  obtain ⟨-, both⟩ := renamed_steps (by decide : gatherArguments.Valid) inj ["x"] 10 10
  rw [rename_gatherArguments] at both
  exact ⟨_, _, rfl, rfl, both.related, rfl, rfl, rfl, rfl⟩

end Machine

end SlotVM
