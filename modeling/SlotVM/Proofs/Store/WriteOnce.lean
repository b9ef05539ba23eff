/-
Constants are write-once, over everything that one machine goes through: starts, transitions, and also what
it is used for after a fault. A transition leaves the constants alone or, if it is a `SetConstant` without a
fault, sets one that was not set. So the constants are those of the history, each with its one value.
-/
import SlotVM.Proofs.Machine.Reach
import SlotVM.Proofs.Program.Valid

namespace SlotVM

open Transition

/-! ## The machine after a transition -/

/-- The machine that a result leaves, which also a fault does. -/
def Machine.resulting : Except Fault Machine → Machine
  | .ok m => m
  | .error f => f.left

/-- The machine after a transition, with or without a fault. -/
def Transition.left (t : Transition) : Machine := Machine.resulting t.result

namespace Machine

variable {p : Program} {m x y : Machine}

/-- Everything that a machine goes through from `m` on. The history holds the machines that made a transition,
the latest first; when one faults, the machine that the fault leaves goes on. -/
inductive Lifetime (p : Program) (m : Machine) : List Machine → Machine → Prop
  | refl : Lifetime p m [] m
  | start {history x y args} (h : Lifetime p m history x) (start : x.start args = .ok y) :
      Lifetime p m history y
  | transition {history x} (h : Lifetime p m history x) (running : x.halted = false ∨ x.settled = false) :
      Lifetime p m (x :: history) (x.advance p).left

namespace Lifetime

variable {history later : List Machine}

theorem trans (h : Lifetime p m history x) (h' : Lifetime p x later y) : Lifetime p m (later ++ history) y := by
  induction h' with
  | refl => exact h
  | start _ start ih => exact ih.start start
  | transition _ running ih => exact ih.transition running

/-- One more transition, which may have ended in a fault. -/
theorem result {r : Except Fault Machine} (h : Lifetime p m history x)
    (running : x.halted = false ∨ x.settled = false) (move : (x.advance p).result = r) :
    Lifetime p m (x :: history) (resulting r) := by
  subst move
  exact h.transition running

theorem runUntil {σ : Type} {observe : σ → List Event → σ} : ∀ (limit : Nat) (x : Machine) (log : σ),
    ∃ history, Lifetime p x history (resulting (x.runUntil p observe settled log limit).2)
  | 0, x, log => ⟨[], .refl⟩
  | limit + 1, x, log => by
    unfold Machine.runUntil
    split
    · exact ⟨[], .refl⟩
    · rename_i unsettled
      have running : x.halted = false ∨ x.settled = false := .inr (by simpa using unsettled)
      dsimp only
      split
      · rename_i y move
        obtain ⟨later, h⟩ := runUntil limit y (observe log (x.advance p).events)
        exact ⟨_, (refl.result running move).trans h⟩
      · rename_i f move
        exact ⟨_, refl.result running move⟩

/-- A step, with or without a fault, is part of a lifetime. -/
theorem step (limit : Nat) (x : Machine) : ∃ history, Lifetime p x history (resulting (x.step p limit)) := by
  unfold Machine.step
  split
  · exact ⟨[], .refl⟩
  · rename_i running
    have running : x.halted = false ∨ x.settled = false := .inl (by simpa using running)
    split
    · rename_i y move
      obtain ⟨later, h⟩ := runUntil limit y ()
      exact ⟨_, (refl.result running move).trans h⟩
    · rename_i f move
      exact ⟨_, refl.result running move⟩

end Lifetime

/-! ## Transitions that leave the constants alone -/

@[simp] theorem left_done (m : Machine) : (done m).left = m := rfl

@[simp] theorem left_note (e : Event) (t : Transition) : (note e t).left = t.left := rfl

theorem enter_constants (m : Machine) (range : Span) (t : Transfer) :
    (m.enter range t).left.constants = m.constants := rfl

theorem handle_constants (m : Machine) (scope : Scope) (clause : CatchClause) (error : Value) :
    (m.handle scope clause error).left.constants = m.constants := rfl

theorem goBack_constants (m : Machine) (k : Option Continuation) : (m.goBack k).constants = m.constants := by
  cases k <;> rfl

theorem unwind_constants : ∀ (n : Nat) (m : Machine), (m.unwind n).left.constants = m.constants
  | 0, m => rfl
  | n + 1, m => by
    unfold unwind
    split
    · rfl
    · dsimp only
      split
      · exact enter_constants ..
      · split
        · exact handle_constants ..
        · exact unwind_constants n _
      · exact (unwind_constants n _).trans (goBack_constants ..)
      all_goals exact unwind_constants n _

theorem exitLoop_constants (m : Machine) (exit : LoopExit) (depth remaining n : Nat) :
    (m.exitLoop exit depth remaining n).left.constants = m.constants := by
  induction n generalizing m remaining with
  | zero => rfl
  | succ n ih =>
    unfold exitLoop
    split
    · rfl
    · split
      · rfl
      · split
        · cases remaining with
          | zero => rfl
          | succ remaining => exact ih ..
        · exact enter_constants ..
        all_goals exact ih ..

theorem deliver_constants (m : Machine) (call : CallFrame) (value : Option Value) :
    (m.deliver call value).left.constants = m.constants := by
  unfold deliver
  split <;> rfl

theorem leaveFunction_constants (value : Option Value) (explicit : Bool) : ∀ (n : Nat) (m : Machine),
    (m.leaveFunction value explicit n).left.constants = m.constants
  | 0, m => by cases explicit <;> rfl
  | n + 1, m => by
    unfold leaveFunction
    split
    · cases explicit <;> rfl
    · dsimp only
      split
      · exact deliver_constants ..
      · exact enter_constants ..
      all_goals exact leaveFunction_constants value explicit n _

theorem resume_constants (m : Machine) (t : Transfer) : (m.resume t).left.constants = m.constants := by
  unfold resume
  split
  · rfl
  · exact exitLoop_constants ..
  · exact leaveFunction_constants ..
  · split
    · exact handle_constants ..
    · exact unwind_constants ..

theorem complete_constants (m : Machine) (r : Region) (outer : List Region) :
    (m.complete r outer).left.constants = m.constants := by
  unfold complete
  split
  · rfl
  · exact resume_constants ..

theorem abandon_constants (m : Machine) (r : Region) (outer : List Region) :
    (m.abandon r outer).left.constants = m.constants := by
  unfold abandon
  dsimp only
  split
  · exact unwind_constants ..
  all_goals rfl

theorem popFrame_constants (m : Machine) : m.popFrame.left.constants = m.constants := by
  unfold popFrame
  split
  · rfl
  · split
    · rfl
    · dsimp only
      split
      · exact enter_constants ..
      · rfl

theorem conclude_constants {α : Type} {r : Except Failure α} {change : Machine → α → Machine}
    (h : ∀ a, (change m a).constants = m.constants) : (m.conclude r change).left.constants = m.constants := by
  unfold conclude
  split
  · exact h _
  all_goals rfl

theorem withResult_constants {α : Type} {r : Except Cause α} {k : Machine → α → Transition}
    (h : ∀ a, (k m a).left.constants = m.constants) : (m.withResult r k).left.constants = m.constants := by
  unfold withResult
  split
  · exact h _
  · rfl

/-- Every instruction but `SetConstant` leaves the constants alone. -/
theorem perform_constants {i : Instruction} (h : ∀ id ref, i ≠ .setConstant id ref) :
    (m.perform p i).left.constants = m.constants := by
  cases i with
  | setConstant id ref => exact absurd rfl (h id ref)
  | assign | setField | setIndex => exact conclude_constants fun _ => rfl
  | call | bind | throw => exact withResult_constants fun _ => rfl
  | branch on ref target =>
    refine withResult_constants fun b => ?_
    rw [left_done]
    split <;> rfl
  | ret ref => exact withResult_constants fun v => leaveFunction_constants ..
  | branchConstant id target =>
    show (if _ then _ else _ : Machine).constants = _
    split <;> rfl
  | popFrame => exact popFrame_constants m
  | exitLoop exit depth => exact exitLoop_constants ..
  | pushScope | pushLoop | pushTry | jump | nop => rfl

/-! ## Setting a constant -/

/-- Setting a constant that is set already, or to the value of a slot that is not written, is a fault. -/
theorem perform_setConstant (m : Machine) (id ref : Nat) : m.perform p (.setConstant id ref) =
    match m.slots.get? ref, m.constants.get? id with
    | some v, none => done { m with constants := ⟨(id, v) :: m.constants.entries⟩ }.next
    | some _, some _ => fail (m.faultHere (.constantSet id))
    | none, _ => fail (m.faultHere (.unwritten ref)) := by
  simp only [perform, constantStore, load, Slots.read]
  cases m.slots.get? ref with
  | none => rfl
  | some v =>
    show m.conclude (ofCause (m.constants.set id v)) _ = _
    rw [Constants.set, Constants.set?, Constants.contains]
    cases m.constants.get? id <;> rfl

/-- Executing the current instruction. -/
theorem Runs.advance_performs {i : Instruction} (runs : m.Runs) (code : p.At m.function m.pc i) :
    m.advance p = note (.executing m.function m.pc i) (m.perform p i) := by
  obtain ⟨f, hf, hi⟩ := code
  rw [runs.advance]
  unfold execute
  rw [hf]
  dsimp only
  rw [hi]

/-- The next transition of `x` is a `SetConstant` that gives the constant `id` the value `v` without a fault. -/
structure Sets (p : Program) (x : Machine) (id : Nat) (v : Value) : Prop where
  runs : x.Runs
  code : ∃ ref, p.At x.function x.pc (.setConstant id ref) ∧ x.slots.get? ref = some v
  succeeds : ∃ y, (x.advance p).result = .ok y

/-- A `SetConstant` succeeds if and only if its slot is written and its constant is not set. -/
theorem sets_iff {id ref : Nat} {v : Value} (runs : x.Runs) (code : p.At x.function x.pc (.setConstant id ref)) :
    Sets p x id v ↔ x.slots.get? ref = some v ∧ x.constants.get? id = none := by
  have advance := runs.advance_performs code
  rw [perform_setConstant] at advance
  constructor
  · rintro ⟨-, ⟨ref', code', written⟩, y, move⟩
    obtain ⟨f, hf, hi⟩ := code
    obtain ⟨f', hf', hi'⟩ := code'
    rw [hf] at hf'
    cases hf'
    rw [hi] at hi'
    cases hi'
    rw [advance, written] at move
    refine ⟨written, ?_⟩
    cases unset : x.constants.get? id with
    | none => rfl
    | some w =>
      rw [unset] at move
      cases move
  · rintro ⟨written, unset⟩
    rw [written, unset] at advance
    exact ⟨runs, ⟨ref, code, written⟩, _, congrArg Transition.result advance⟩

theorem Sets.left {id : Nat} {v : Value} (h : Sets p x id v) :
    (x.advance p).left = { x with constants := ⟨(id, v) :: x.constants.entries⟩ }.next := by
  obtain ⟨ref, code, written⟩ := h.code
  have unset := ((sets_iff h.runs code).1 h).2
  rw [h.runs.advance_performs code, perform_setConstant, written, unset]; rfl

theorem execute_constants (runs : x.Runs) (h : ∀ id v, ¬ Sets p x id v) :
    (x.execute p).left.constants = x.constants := by
  unfold execute
  split
  · rfl
  · rename_i f hf
    split
    · exact leaveFunction_constants ..
    · rename_i i hi
      rw [left_note]
      by_cases set : ∃ id ref, i = .setConstant id ref
      · obtain ⟨id, ref, rfl⟩ := set
        have unset := fun v => mt (sets_iff runs ⟨f, hf, hi⟩).2 (h id v)
        rw [perform_setConstant]
        cases written : x.slots.get? ref with
        | none => rfl
        | some v =>
          cases set : x.constants.get? id with
          | none => exact absurd ⟨written, set⟩ (unset v)
          | some w => rfl
      · exact perform_constants fun id ref heq => set ⟨id, ref, heq⟩

/-- A transition that sets no constant leaves the constants alone. -/
theorem advance_constants (h : ∀ id v, ¬ Sets p x id v) : (x.advance p).left.constants = x.constants := by
  unfold advance
  split
  · rename_i none
    split
    · exact unwind_constants ..
    · rename_i active
      exact execute_constants ⟨by simpa using active, by simp [none]⟩ h
  · rename_i r outer hr
    split
    · split
      · exact abandon_constants ..
      · exact unwind_constants ..
    · rename_i active
      split
      · exact complete_constants ..
      · rename_i inside
        refine execute_constants ⟨by simpa using active, ?_⟩ h
        rintro r' outer' h'
        rw [hr] at h'
        cases h'
        exact inside

/-- What a constant holds after a transition: what it held before, or what the transition sets it to. -/
theorem advance_get? (id : Nat) (v : Value) :
    (x.advance p).left.constants.get? id = some v ↔ x.constants.get? id = some v ∨ Sets p x id v := by
  by_cases sets : ∃ id' v', Sets p x id' v'
  · obtain ⟨id', v', sets⟩ := sets
    obtain ⟨ref, code, written⟩ := sets.code
    obtain ⟨-, unset⟩ := (sets_iff sets.runs code).1 sets
    have only {w : Value} : Sets p x id w ↔ id = id' ∧ w = v' := by
      constructor
      · intro other
        have left := other.left
        rw [sets.left] at left
        cases congrArg (·.constants.entries.head?) left
        exact ⟨rfl, rfl⟩
      · rintro ⟨rfl, rfl⟩
        exact sets
    rw [sets.left, only]
    show List.lookup id ((id', v') :: _) = _ ↔ _
    by_cases same : id = id'
    · subst same
      simp [unset, eq_comm]
    · rw [List.lookup_cons, beq_eq_false_iff_ne.2 same]
      simp only [same, false_and, or_false]; rfl
  · rw [advance_constants fun id v h => sets ⟨id, v, h⟩]
    exact (or_iff_left fun h => sets ⟨id, v, h⟩).symm

/-! ## Constants of a lifetime -/

/-- A constant has been set in the history. -/
def IsSet (p : Program) (history : List Machine) (id : Nat) (v : Value) : Prop := ∃ y ∈ history, Sets p y id v

namespace Lifetime

variable {history later : List Machine}

theorem get?_iff (h : Lifetime p m history x) (id : Nat) (v : Value) :
    x.constants.get? id = some v ↔ m.constants.get? id = some v ∨ IsSet p history id v := by
  induction h with
  | refl => simp [IsSet]
  | start h start ih =>
    obtain ⟨-, rfl⟩ := start_ok start
    exact ih
  | @transition history x h running ih =>
    rw [advance_get?, ih, or_assoc]
    simp only [IsSet, List.mem_cons, exists_eq_or_imp, or_comm]

/-- What a constant holds it holds for ever. -/
theorem get?_kept (h : Lifetime p m history x) {id : Nat} {v : Value} (held : m.constants.get? id = some v) :
    x.constants.get? id = some v := (h.get?_iff id v).2 (.inl held)

/-- No constant is set twice, not even to the same value. -/
theorem pairwise (h : Lifetime p m history x) :
    history.Pairwise fun y z => ∀ id v w, Sets p z id v → ¬ Sets p y id w := by
  induction h with
  | refl => exact .nil
  | start h start ih => exact ih
  | @transition history x h running ih =>
    refine List.pairwise_cons.2 ⟨?_, ih⟩
    intro z hz id v w before again
    obtain ⟨ref, code, -⟩ := again.code
    have held := (h.get?_iff id v).2 (.inr ⟨z, hz, before⟩)
    rw [((sets_iff again.runs code).1 again).2] at held
    cases held

end Lifetime

/-- What holds of constants when a machine has come to `x`, with the given history. -/
structure WriteOnce (p : Program) (history : List Machine) (x : Machine) : Prop where
  /-- A constant holds the value that a `SetConstant` has set it to. -/
  populated : ∀ id v, x.constants.get? id = some v ↔ IsSet p history id v
  /-- It holds that value in every later state. -/
  kept : ∀ id v, x.constants.get? id = some v → ∀ later y, Lifetime p x later y → y.constants.get? id = some v
  /-- The machines that starts and steps lead to are among these, also when a step ends in a fault. -/
  started : ∀ args y, x.start args = .ok y → Lifetime p x [] y
  stepped : ∀ limit, ∃ later, Lifetime p x later (resulting (x.step p limit))
  /-- At most one `SetConstant` of the history has succeeded. -/
  once : history.Pairwise fun y z => ∀ id v w, Sets p z id v → ¬ Sets p y id w
  /-- The first attempt with a written slot succeeds. -/
  accepted : ∀ id ref v, x.Runs → p.At x.function x.pc (.setConstant id ref) → x.slots.get? ref = some v →
    (∀ w, ¬ IsSet p history id w) → Sets p x id v
  /-- Every further attempt is a fault, and the machine is as before but for the finally blocks that it ends. -/
  refused : ∀ id ref v, x.Runs → p.At x.function x.pc (.setConstant id ref) → IsSet p history id v →
    ∃ f, (x.advance p).result = .error f ∧ f.left = { x with regions := [] }
  /-- A `LoadConstant` of a constant that was set writes its value into the target. -/
  loaded : ∀ target id v, x.Runs → p.At x.function x.pc (.assign target (.constant id)) → IsSet p history id v →
    (x.advance p).result = .ok { x with slots := x.slots.write target v, pc := x.pc + 1 }
  unloaded : ∀ target id, x.Runs → p.At x.function x.pc (.assign target (.constant id)) →
    ((∃ f, (x.advance p).result = .error f) ↔ ∀ v, ¬ IsSet p history id v)
  /-- A `ConstBranch` jumps if the constant was set, and goes on with the next instruction otherwise. -/
  jumps : ∀ id target v, x.Runs → p.At x.function x.pc (.branchConstant id target) → IsSet p history id v →
    (x.advance p).result = .ok { x with pc := target }
  goesOn : ∀ id target, x.Runs → p.At x.function x.pc (.branchConstant id target) →
    (∀ v, ¬ IsSet p history id v) → (x.advance p).result = .ok { x with pc := x.pc + 1 }

/-- A constant that was not set is empty. -/
theorem get?_eq_none_of_unset {history : List Machine} {id : Nat}
    (populated : ∀ v, x.constants.get? id = some v ↔ IsSet p history id v) (unset : ∀ v, ¬ IsSet p history id v) :
    x.constants.get? id = none :=
  Option.eq_none_iff_forall_ne_some.2 fun v held => unset v ((populated v).1 held)

theorem perform_constant (m : Machine) (target id : Nat) : m.perform p (.assign target (.constant id)) =
    match m.constants.get? id with
    | some v => done { m with slots := m.slots.write target v, pc := m.pc + 1 }
    | none => fail (m.faultHere (.constantUnset id)) := by
  simp only [perform, evaluate, Constants.read]
  cases m.constants.get? id <;> rfl

theorem perform_branchConstant (m : Machine) (id target : Nat) : m.perform p (.branchConstant id target) =
    done { m with pc := if (m.constants.get? id).isSome then target else m.pc + 1 } := by
  show done (if (m.constants.get? id).isSome then _ else _) = _
  cases m.constants.get? id <;> rfl

/-- In everything that one machine goes through, with any number of runs and also after faults, every constant is
set once and keeps its value. -/
theorem constants_writeOnce {history : List Machine} (life : Lifetime p (ready p) history x) :
    WriteOnce p history x := by
  have populated (id : Nat) (v : Value) : x.constants.get? id = some v ↔ IsSet p history id v := by
    rw [life.get?_iff]
    exact or_iff_right nofun
  constructor
  · exact populated
  · intro id v held later y next
    exact next.get?_kept held
  · intro args y start
    exact Lifetime.refl.start start
  · intro limit
    exact Lifetime.step limit x
  · exact life.pairwise
  · intro id ref v runs code written unset
    exact (sets_iff runs code).2 ⟨written, get?_eq_none_of_unset (populated id) unset⟩
  · intro id ref v runs code set
    have held := (populated id v).2 set
    rw [runs.advance_performs code, perform_setConstant, held]
    cases x.slots.get? ref <;> exact ⟨_, rfl, rfl⟩
  · intro target id v runs code set
    rw [runs.advance_performs code, perform_constant, (populated id v).2 set]; rfl
  · intro target id runs code
    rw [runs.advance_performs code, perform_constant]
    constructor
    · rintro ⟨f, fault⟩ v set
      rw [(populated id v).2 set] at fault
      cases fault
    · intro unset
      rw [get?_eq_none_of_unset (populated id) unset]
      exact ⟨_, rfl⟩
  · intro id target v runs code set
    rw [runs.advance_performs code, perform_branchConstant, (populated id v).2 set]; rfl
  · intro id target runs code unset
    rw [runs.advance_performs code, perform_branchConstant, get?_eq_none_of_unset (populated id) unset]; rfl

/-- A program whose finally block sets a constant while an error goes past it. -/
def setInCleanup : Program :=
  ⟨#[⟨"main", 1, #[.assign 0 (.integer 7), .pushTry [] (some ⟨3, 4⟩), .throw 0, .setConstant 5 0]⟩]⟩

/-- Its first run sets the constant. The second comes to the finally block again and faults there, and the
constant keeps its value. -/
theorem constants_writeOnce_secondRun : ∃ history x f, Lifetime setInCleanup (ready setInCleanup) history x ∧
    x.Runs ∧ x.regions.length = 1 ∧ setInCleanup.At x.function x.pc (.setConstant 5 0) ∧
    IsSet setInCleanup history 5 (.integer 7) ∧ (x.advance setInCleanup).result = .error f ∧
    f.left.constants.get? 5 = some (.integer 7) ∧ WriteOnce setInCleanup history x := by
  have started : Lifetime setInCleanup (ready setInCleanup) _ _ :=
    Lifetime.refl.start (show Machine.start _ [] = .ok _ from rfl)
  have thrown := ((started.transition (.inl rfl)).transition (.inl rfl)).transition (.inl rfl)
  have set := (thrown.transition (.inl rfl)).transition (.inl rfl)
  have ended := set.transition (.inl rfl)
  have restarted := ended.start (show Machine.start _ [] = .ok _ from rfl)
  have again := ((restarted.transition (.inl rfl)).transition (.inl rfl)).transition (.inl rfl)
  have inside := again.transition (.inl rfl)
  have once := constants_writeOnce inside
  refine ⟨_, _, _, inside, ⟨rfl, ?_⟩, rfl, ⟨_, rfl, rfl⟩, (once.populated 5 _).1 rfl, rfl, rfl, once⟩
  rintro r outer ⟨⟩ ⟨-, stop⟩
  exact absurd stop (by decide)

end Machine

end SlotVM
