/-
The places of instructions mean nothing but their order. If a `Nop` is put somewhere into a function, and the
targets behind that place are moved on by one, the program does what it did before: `insertNop_same`. A target
at the place itself leads to the `Nop`, so that a range which begins there contains it, and one which ends there
does not.
-/
import SlotVM.Proofs.Translation.Stutter

namespace SlotVM

/-! ## Programs with one more instruction -/

/-- Where a target leads when an instruction is inserted at `k`. -/
def shift (k target : Nat) : Nat := if target ≤ k then target else target + 1

/-- The function with a `Nop` at `k`. -/
def FunctionDef.insertNop (k : Nat) (f : FunctionDef) : FunctionDef :=
  { f with code := ((f.code.toList.map (·.translate id (shift k))).insertIdx k .nop).toArray }

namespace Program

/-- The program with a `Nop` at `k` in function `g`. -/
def insertNop (g k : Nat) (p : Program) : Program := ⟨p.functions.modify g (·.insertNop k)⟩

/-- The insertion of a `Nop`, as a translation that keeps all slots. An instruction that corresponds to another
one is at a place that does, and so is the `Nop`. -/
def nopTranslation (g k : Nat) : Translation where
  slot := id
  goal f t := if f = g then shift k t else t
  ref := Eq
  place f a b := b = (if f = g ∧ k ≤ a then a + 1 else a) ∨ f = g ∧ a = k ∧ b = k
  code f a b := b = if f = g ∧ k ≤ a then a + 1 else a
  slots := Eq

end Program

variable {p : Program} {g k : Nat}

/-! ## The other program -/

theorem Source.translate_id (s : Source) : s.translate id = s := by
  cases s <;> simp [translate]

theorem Instruction.translate_id : Instruction.translate id id = id := by
  funext i
  cases i <;> simp [translate, Source.translate_id, CatchClause.translate, Span.translate]

theorem shift_mono {k a b : Nat} (h : a ≤ b) : shift k a ≤ shift k b := by
  unfold shift
  split <;> split <;> omega

theorem shift_le {k a length : Nat} (h : a ≤ length) : shift k a ≤ length + 1 := by
  unfold shift
  split <;> omega

theorem flatMap_insertIdx {α β : Type} {f : α → List β} {a : α} (ha : f a = []) (l : List α) (k : Nat) :
    (l.insertIdx k a).flatMap f = l.flatMap f := by
  induction l generalizing k with
  | nil => cases k <;> simp [ha]
  | cons b l ih => cases k <;> simp [ha, ih]

theorem flatMap_modify {α β : Type} {f : α → List β} {change : α → α} (same : ∀ a, f (change a) = f a) (l : List α)
    (i : Nat) : (l.modify i change).flatMap f = l.flatMap f := by
  induction l generalizing i with
  | nil => cases i <;> rfl
  | cons b l ih => cases i <;> simp [same, ih]

namespace FunctionDef

variable {f : FunctionDef}

theorem size_insertNop (hk : k ≤ f.code.size) : (f.insertNop k).code.size = f.code.size + 1 := by
  simp [insertNop, List.length_insertIdx, hk]

theorem getElem?_insertNop (hk : k ≤ f.code.size) (pc : Nat) : (f.insertNop k).code[pc]? =
    if pc < k then f.code[pc]?.map (·.translate id (shift k))
    else if pc = k then some .nop else f.code[pc - 1]?.map (·.translate id (shift k)) := by
  unfold insertNop
  rw [List.getElem?_toArray, List.getElem?_insertIdx]
  split
  · simp
  · split
    · rw [if_pos (by simpa [‹pc = k›] using hk)]
    · simp

theorem refs_insertNop (f : FunctionDef) (k : Nat) :
    (f.insertNop k).code.toList.flatMap Instruction.refs = f.code.toList.flatMap Instruction.refs := by
  unfold insertNop
  rw [flatMap_insertIdx rfl, List.flatMap_map]
  refine List.flatMap_congr fun i _ => ?_
  rw [Instruction.refs_translate, List.map_id]

end FunctionDef

namespace Program

theorem getElem?_insertNop (p : Program) (g k f : Nat) : (p.insertNop g k).functions[f]? =
    if g = f then p.functions[f]?.map (·.insertNop k) else p.functions[f]? := by
  rw [insertNop, Array.getElem?_modify]

theorem slotCount_insertNop (p : Program) (g k : Nat) : (p.insertNop g k).slotCount = p.slotCount := by
  have refs : (p.insertNop g k).refs = p.refs := by
    unfold refs insertNop
    rw [Array.toList_modify]
    exact flatMap_modify (fun f => f.refs_insertNop k) _ _
  unfold slotCount
  rw [refs]

end Program

/-- Instructions keep to their function. -/
theorem Instruction.defect?_translate {functions length : Nat} {i : Instruction}
    (h : i.defect? functions length = none) : (i.translate id (shift k)).defect? functions (length + 1) = none := by
  cases i with
  | jump target | branch on ref target | branchConstant ref target =>
    exact outside?_eq_none.2 (shift_le (outside?_eq_none.1 h))
  | pushLoop start stop =>
    obtain ⟨h1, h2⟩ := Option.or_eq_none_iff.1 h
    exact Option.or_eq_none_iff.2
      ⟨outside?_eq_none.2 (shift_le (outside?_eq_none.1 h1)), outside?_eq_none.2 (shift_le (outside?_eq_none.1 h2))⟩
  | pushTry catches cleanup =>
    obtain ⟨h1, h2⟩ := Option.or_eq_none_iff.1 h
    refine Option.or_eq_none_iff.2 ⟨List.findSome?_eq_none_iff.2 fun c' hc' => ?_, ?_⟩
    · obtain ⟨c, hc, rfl⟩ := List.mem_map.1 hc'
      exact outside?_eq_none.2 (shift_le (outside?_eq_none.1 (List.findSome?_eq_none_iff.1 h1 c hc)))
    · cases cleanup with
      | none => rfl
      | some s =>
        obtain ⟨stop, ordered⟩ := Span.defect?_eq_none.1 h2
        exact Span.defect?_eq_none.2 ⟨shift_le stop, shift_mono ordered⟩
  | assign target source => cases source <;> exact h
  | _ => rfl

namespace Program

/-- A program of which no instruction has a defect is valid. -/
theorem Valid.of (entry : 0 < p.functions.size) (instructions : ∀ {id pc : Nat} {f : FunctionDef} {i : Instruction},
    p.functions[id]? = some f → f.code[pc]? = some i → i.defect? p.functions.size f.code.size = none) : p.Valid := by
  unfold Valid invalid?
  rw [if_neg (by simpa [Array.size_pos_iff] using entry), List.findSome?_eq_none_iff]
  rintro ⟨f, id⟩ hf
  have hf : p.functions[id]? = some f := by simpa using List.mem_zipIdx_iff_getElem?.1 hf
  refine List.findSome?_eq_none_iff.2 ?_
  rintro ⟨i, pc⟩ hi
  have hi : f.code[pc]? = some i := by simpa using List.mem_zipIdx_iff_getElem?.1 hi
  simp [instructions hf hi]

theorem Valid.insertNop (valid : p.Valid) (place : p.Target g k) : (p.insertNop g k).Valid := by
  obtain ⟨d, hd, hk⟩ := place
  have size : (p.insertNop g k).functions.size = p.functions.size := Array.size_modify
  refine .of (size ▸ valid.entry) fun {f pc d' i'} hd' hi' => ?_
  rw [size]
  rw [getElem?_insertNop] at hd'
  split at hd'
  · rename_i heq
    subst heq
    rw [hd] at hd'
    cases hd'
    rw [FunctionDef.size_insertNop hk]
    rw [FunctionDef.getElem?_insertNop hk] at hi'
    have moved {pc : Nat} (h : d.code[pc]?.map (·.translate id (shift k)) = some i') :
        i'.defect? p.functions.size (d.code.size + 1) = none := by
      obtain ⟨i, hi, rfl⟩ := Option.map_eq_some_iff.1 h
      exact Instruction.defect?_translate (valid.defect?_eq_none hd hi)
    split at hi'
    · exact moved hi'
    · split at hi'
      · cases hi'; rfl
      · exact moved hi'
  · exact valid.defect?_eq_none hd' hi'

theorem goal_self : (nopTranslation g k).goal g = shift k := funext fun _ => if_pos rfl

theorem goal_other {f : Nat} (h : f ≠ g) : (nopTranslation g k).goal f = id := funext fun _ => if_neg h

theorem nopTranslation_sound (place : p.Target g k) : (nopTranslation g k).Sound p (p.insertNop g k) where
  unique := ⟨fun _ _ _ h h' => h.trans h'.symm, fun _ _ _ h h' => h.symm.trans h'⟩
  read := by
    rintro s _ rfl a _ rfl
    have refl (v : Value) : Value.Alike Eq v v := .refl v
    cases s.get? a with
    | none => exact .none
    | some v => exact .some (refl v)
  write := by
    rintro s _ a _ v w rfl rfl hv
    rw [hv.eq]
    rfl
  start f := by
    dsimp only [nopTranslation]
    split_ifs <;> omega
  goal f t := by
    dsimp only [nopTranslation, shift]
    split_ifs <;> omega
  code := .inl
  next h := by
    dsimp only [nopTranslation] at h ⊢
    split_ifs at h ⊢ <;> omega
  stop h s := by
    dsimp only [nopTranslation, shift] at h ⊢
    split_ifs at h ⊢ <;> omega
  function := by
    intro f d hd
    rw [getElem?_insertNop, hd]
    by_cases hf : g = f
    · subst hf
      obtain ⟨_, hd', hk⟩ := place
      cases hd.symm.trans hd'
      refine ⟨d.insertNop k, if_pos rfl, rfl, fun {a b} hab => ?_⟩
      have hab : b = if g = g ∧ k ≤ a then a + 1 else a := hab
      rw [FunctionDef.getElem?_insertNop hk, goal_self]
      by_cases hka : k ≤ a
      · rw [if_pos ⟨rfl, hka⟩] at hab
        subst hab
        rw [if_neg (by omega), if_neg (by omega), Nat.add_sub_cancel]
        rfl
      · rw [if_neg fun h => hka h.2] at hab
        subst hab
        rw [if_pos (by omega)]
        rfl
    · refine ⟨d, if_neg hf, rfl, fun {a b} hab => ?_⟩
      have hab : b = a := hab.trans (if_neg fun h => hf h.1.symm)
      subst hab
      have same : (nopTranslation g k).slot = id := rfl
      rw [goal_other (Ne.symm hf), same, Instruction.translate_id, Option.map_id]
      rfl
  noFunction := by
    intro f hf
    rw [getElem?_insertNop, hf]
    split <;> rfl
  refs _ _ _ := rfl

theorem nopTranslation_waits (place : p.Target g k) : (nopTranslation g k).Waits (p.insertNop g k) := by
  rintro f a b (code | ⟨rfl, rfl, rfl⟩)
  · exact .inl code
  · obtain ⟨d, hd, hk⟩ := place
    refine .inr ⟨⟨d.insertNop b, ?_, ?_⟩, ?_⟩
    · rw [getElem?_insertNop, if_pos rfl, hd]; rfl
    · rw [FunctionDef.getElem?_insertNop hk, if_neg (Nat.lt_irrefl _), if_pos rfl]
    · exact (if_pos ⟨rfl, Nat.le_refl _⟩).symm

end Program

/-! ## Runs -/

namespace Machine

variable {m m' : Machine}

theorem started_insertNop (place : p.Target g k) (args : List String) :
    ((ready p).started args).Alike (Program.nopTranslation g k) ((ready (p.insertNop g k)).started args) := by
  refine started_alike (Program.nopTranslation_sound place) ?_ ?_
  · show _ = _
    rw [started, started, ready, ready, Program.slotCount_insertNop]
  · rw [Program.slotCount_insertNop]
    exact List.forall₂_same.2 fun _ _ => rfl

/-- Alike machines have the same slots, constants and outcome. -/
theorem Alike.same (h : m.Alike (Program.nopTranslation g k) m') :
    m'.slots = m.slots ∧ m'.constants = m.constants ∧ m'.outcome = m.outcome := by
  refine ⟨h.slots.symm, ?_, ?_⟩
  · have entries {a b : List (Nat × Value)} (hab : List.Forall₂ (fun x y => x.1 = y.1 ∧ x.2.Alike Eq y.2) a b) :
        b = a := by
      induction hab with
      | nil => rfl
      | cons he _ ih => rw [ih, Prod.ext he.1 he.2.eq.symm]
    exact congrArg Constants.mk (entries h.constants)
  · have ref (a b : Nat) (hab : a = b) : b = id a := hab.symm
    rw [h.outcome_eq ref]
    cases m.outcome with
    | ok o => exact congrArg _ o.rename_id
    | error c => rfl

/-- A run ends with the given outcome, slots and constants. -/
def EndsWith (p : Program) (args : List String) (outcome : Outcome) (slots : Slots) (constants : Constants) : Prop :=
  ∃ m, EndsIn p args m outcome ∧ m.slots = slots ∧ m.constants = constants

/-- A `Nop` may be put anywhere into a valid program. -/
theorem insertNop_same {p : Program} {g k : Nat} (valid : p.Valid) (place : p.Target g k) :
    (p.insertNop g k).Valid ∧ ∀ args,
      (∀ outcome slots constants, EndsWith p args outcome slots constants ↔
        EndsWith (p.insertNop g k) args outcome slots constants) ∧
      (Faults p args ↔ Faults (p.insertNop g k) args) := by
  have sound := Program.nopTranslation_sound place
  have waits := Program.nopTranslation_waits place
  refine ⟨valid.insertNop place, fun args => ?_⟩
  have start := started_insertNop place args
  refine ⟨fun outcome slots constants => ⟨?_, ?_⟩, faults_congr sound waits valid start⟩
  · rintro ⟨m, ends, rfl, rfl⟩
    obtain ⟨⟨log, run⟩, halted, outcome⟩ := endsIn_iff.1 ends
    obtain ⟨log', m', run', h⟩ := start.follows sound waits valid reachable_started run
    obtain ⟨slots, constants, same⟩ := h.same
    exact ⟨m', endsIn_iff.2 ⟨⟨log', run'⟩, h.halted_eq.trans halted, same.trans outcome⟩, slots, constants⟩
  · rintro ⟨m', ends, rfl, rfl⟩
    obtain ⟨⟨log', run'⟩, halted, outcome⟩ := endsIn_iff.1 ends
    obtain ⟨log, m, run, h⟩ := start.precedes sound waits valid reachable_started run'
    obtain ⟨slots, constants, same⟩ := h.same
    exact ⟨m, endsIn_iff.2 ⟨⟨log, run⟩, h.halted_eq.symm.trans halted, same.symm.trans outcome⟩, slots.symm,
      constants.symm⟩

/-- A program that sets a constant in a finally block, which a return runs. -/
def rememberInCleanup : Program :=
  ⟨#[⟨"main", 1, #[.pushTry [] (some ⟨3, 4⟩), .assign 0 (.integer 7), .ret 0, .setConstant 5 0]⟩]⟩

/-- A `Nop` at the beginning of the finally block. -/
theorem insertNop_same_cleanup : rememberInCleanup.Valid ∧ rememberInCleanup.Target 0 3 ∧
    (rememberInCleanup.insertNop 0 3).Valid ∧ ∃ slots,
      EndsWith rememberInCleanup [] (.returned (some (.integer 7))) slots ⟨[(5, .integer 7)]⟩ ∧
      EndsWith (rememberInCleanup.insertNop 0 3) [] (.returned (some (.integer 7))) slots ⟨[(5, .integer 7)]⟩ := by
  have valid : rememberInCleanup.Valid := by decide
  have place : rememberInCleanup.Target 0 3 := ⟨_, rfl, by decide⟩
  obtain ⟨valid', same⟩ := insertNop_same valid place
  have ends : EndsWith rememberInCleanup [] (.returned (some (.integer 7))) ⟨#[some (.integer 7)]⟩
      ⟨[(5, .integer 7)]⟩ := ⟨_, ⟨10, rfl⟩, rfl, rfl⟩
  exact ⟨valid, place, valid', _, ends, ((same []).1 _ _ _).1 ends⟩

end Machine

end SlotVM
