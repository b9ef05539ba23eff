/-
Function values that are applied to their arguments in pieces. `application_in_pieces`: in every state that a valid
program comes to, applications one after the other and then a call of the last result do what a single call with all the
arguments does. An argument that was applied before is its slot, and the slot is read when the call is made.
-/
import SlotVM.Proofs.Control.Validation

namespace SlotVM

/-! ## Applications -/

/-- A partial application: the slot of its result, and the slots of the arguments. -/
structure Piece where
  target : Nat
  args : List Nat

/-- Applications one after the other: the first of the function value in slot `ref`, and each other one of the result of
the one before. -/
def applications (ref : Nat) : List Piece → List Instruction
  | [] => []
  | q :: pieces => .assign q.target (.apply ref q.args) :: applications q.target pieces

/-- The slot of the last result. -/
def lastTarget (ref : Nat) : List Piece → Nat
  | [] => ref
  | q :: pieces => lastTarget q.target pieces

/-- The slots of all arguments, in their order. -/
def allArgs (pieces : List Piece) : List Nat := pieces.flatMap Piece.args

/-- A call that gets its arguments in pieces: the function value in slot `ref` is applied to those of `pieces`, and the
result is called with the arguments `last`. The value that it returns is for slot `target`. -/
structure PiecewiseCall where
  ref : Nat
  pieces : List Piece
  target : Nat
  last : List Nat

namespace PiecewiseCall

/-- The slots that the applications store into. -/
def stored (k : PiecewiseCall) : List Nat := k.pieces.map Piece.target

/-- The slot of the function value that is called. -/
def result (k : PiecewiseCall) : Nat := lastTarget k.ref k.pieces

/-- The call after the applications. -/
def call (k : PiecewiseCall) : Instruction := .call k.target k.result k.last

/-- The call that gets all the arguments at once. -/
def atOnce (k : PiecewiseCall) : Instruction := .call k.target k.ref (allArgs k.pieces ++ k.last)

/-- The slots whose values are passed to the function of the closure `c`. -/
def passed (k : PiecewiseCall) (c : Closure) : List Nat := c.captured ++ allArgs k.pieces ++ k.last

/-- The applications store into different slots, and not into that of the function value or of an argument. -/
structure Apart (k : PiecewiseCall) (c : Closure) : Prop where
  targets : k.stored.Nodup
  function : k.ref ∉ k.stored
  passed : ∀ id ∈ k.passed c, id ∉ k.stored

end PiecewiseCall

theorem Closure.apply_nil (c : Closure) : c.apply [] = c := by
  rw [apply, List.append_nil]

theorem Closure.apply_apply (c : Closure) (args args' : List Nat) :
    (c.apply args).apply args' = c.apply (args ++ args') := by
  rw [apply, apply, apply, List.append_assoc]

theorem Slots.exists_values (s : Slots) : ∀ ids : List Nat, (∀ id ∈ ids, s.get? id ≠ none) →
    ∃ values, List.Forall₂ (fun id v => s.get? id = some v) ids values
  | [], _ => ⟨[], .nil⟩
  | id :: ids, h => by
    obtain ⟨written, rest⟩ := List.forall_mem_cons.1 h
    obtain ⟨v, hv⟩ := Option.ne_none_iff_exists'.1 written
    obtain ⟨values, hvalues⟩ := exists_values s ids rest
    exact ⟨v :: values, .cons hv hvalues⟩

namespace Machine

/-- Executes instructions one after the other, in whatever function. -/
def performs (p : Program) (m : Machine) : List Instruction → Except Fault Machine
  | [] => .ok m
  | i :: is => (m.perform p i).result.bind fun x => x.performs p is

/-- The instructions stand where the machine goes on, and no finally block ends before them. -/
structure Ahead (p : Program) (m : Machine) (is : List Instruction) : Prop where
  running : m.halted = false
  code : ∀ j i, is[j]? = some i → p.At m.function (m.pc + j) i
  runs : ∀ j < is.length, { m with pc := m.pc + j }.Runs

/-- What an instruction does that calls a function of `params` parameters with the values of the slots `ids`. -/
structure Calls (p : Program) (m : Machine) (call : Instruction) (target function params : Nat) (ids : List Nat) :
    Prop where
  faults : (∃ fault, (m.perform p call).result = .error fault) ↔
    (∃ id ∈ ids, m.slots.get? id = none) ∨ ids.length ≠ params
  enters : ∀ values, List.Forall₂ (fun id v => m.slots.get? id = some v) ids values → ids.length = params →
    m.perform p call = ⟨[.called function m.stack.depth], .ok (m.calling target function values)⟩

/-- What a call in pieces does in the machine `m`, where slot `k.ref` holds the closure `c` of a function of `params`
parameters. The machine `y` is the one after the applications. -/
structure Applied (p : Program) (m : Machine) (k : PiecewiseCall) (c : Closure) (params : Nat) (y : Machine) :
    Prop where
  executed : m.performs p (applications k.ref k.pieces) = .ok y
  /-- The applications change nothing but slots, and only those that they store into. -/
  frame : y = { m with slots := y.slots, pc := m.pc + k.pieces.length }
  others : ∀ id, id ∉ k.stored → y.slots.get? id = m.slots.get? id
  function : y.slots.get? k.ref = some (.function c)
  /-- Each result holds the closure with the arguments so far, unchanged by later applications. -/
  results : ∀ before q after, k.pieces = before ++ q :: after →
    y.slots.get? q.target = some (.function (c.apply (allArgs (before ++ [q]))))
  /-- If the instructions stand in the running function, then it is they that the transitions execute. -/
  run : m.Ahead p (applications k.ref k.pieces ++ [k.call]) → m.after? p k.pieces.length = some y ∧
    y.advance p = Transition.note (.executing y.function y.pc k.call) (y.perform p k.call)
  /-- The call passes what the slots hold when it is made, be that at once or later. -/
  passes : ∀ x : Machine, x.slots.get? k.result = y.slots.get? k.result →
    x.Calls p k.call k.target c.function params (k.passed c)
  /-- A call that gets all arguments at once, when it is made, does the same. -/
  same : ∀ x : Machine, x.slots.get? k.result = y.slots.get? k.result → x.slots.get? k.ref = some (.function c) →
    x.perform p k.call = x.perform p k.atOnce
  /-- And so it does without the applications: it faults if the call in pieces does, and enters the function with the
  same values. -/
  atOnce : m.Calls p k.atOnce k.target c.function params (k.passed c)
  faults : (∃ fault, (y.perform p k.call).result = .error fault) ↔ ∃ fault, (m.perform p k.atOnce).result = .error fault
  enters : ∀ es z, m.perform p k.atOnce = ⟨es, .ok z⟩ →
    ∃ values, List.Forall₂ (fun id v => m.slots.get? id = some v) (k.passed c) values ∧
      z = m.calling k.target c.function values ∧
      y.perform p k.call = ⟨es, .ok (y.calling k.target c.function values)⟩
  /-- The call stores nothing. -/
  keeps : ∀ es z, y.perform p k.call = ⟨es, .ok z⟩ → z.slots = y.slots

variable {p : Program} {m : Machine} {ref target : Nat} {c : Closure} {args : List Nat} {pieces : List Piece}

/-! ## Calls -/

theorem callee_eq (holds : m.slots.get? ref = some (.function c)) (p : Program) (args : List Nat) :
    m.callee p ref args = (match p.functions[c.function]? with
      | none => .error (.noFunction c.function)
      | some definition => do
        let values ← (c.captured ++ args).mapM m.slots.read
        if values.length = definition.params then return (c.function, values)
        else .error (.argumentCount definition.name definition.params values.length)) := by
  rw [callee, Slots.read_eq_ok.2 holds]; rfl

theorem callee_apply {ref' : Nat} (holds : m.slots.get? ref = some (.function c))
    (holds' : m.slots.get? ref' = some (.function (c.apply args))) (p : Program) (last : List Nat) :
    m.callee p ref' last = m.callee p ref (args ++ last) := by
  simp only [callee_eq holds, callee_eq holds', Closure.apply, List.append_assoc]

theorem calls {definition : FunctionDef} (holds : m.slots.get? ref = some (.function c))
    (found : p.functions[c.function]? = some definition) (target : Nat) (args : List Nat) :
    m.Calls p (.call target ref args) target c.function definition.params (c.captured ++ args) := by
  have enters (values : List Value)
      (read : List.Forall₂ (fun id v => m.slots.get? id = some v) (c.captured ++ args) values)
      (length : (c.captured ++ args).length = definition.params) :
      m.perform p (.call target ref args) =
        ⟨[.called c.function m.stack.depth], .ok (m.calling target c.function values)⟩ := by
    have callee : m.callee p ref args = .ok (c.function, values) := by
      rw [read.length_eq] at length
      simp only [callee_eq holds, found, Slots.mapM_read_eq_ok.2 read]
      exact if_pos length
    rw [perform, callee]; rfl
  refine ⟨⟨?_, ?_⟩, enters⟩
  · rintro ⟨fault, hf⟩
    by_contra ok
    obtain ⟨written, length⟩ := not_or.1 ok
    obtain ⟨values, read⟩ := m.slots.exists_values _ fun id hid none => written ⟨id, hid, none⟩
    rw [enters values read (not_not.1 length)] at hf
    cases hf
  · intro bad
    rcases hc : m.callee p ref args with cause | ⟨function, values⟩
    · exact ⟨_, by rw [perform, hc]; rfl⟩
    · obtain ⟨closure, g, hclosure, rfl, hg, read, length⟩ := callee_ok hc
      rw [Slots.read_eq_ok, holds] at hclosure
      cases hclosure
      rw [found] at hg
      cases hg
      have read := Slots.mapM_read_eq_ok.1 read
      obtain ⟨id, hid, unwritten⟩ | wrong := bad
      · obtain ⟨v, -, hv⟩ := exists_of_forall₂ read id hid
        rw [unwritten] at hv
        cases hv
      · exact absurd (read.length_eq.trans length) wrong

theorem Calls.of_ok {z : Machine} {es : List Event} {call : Instruction} {function params : Nat} {ids : List Nat}
    (calls : m.Calls p call target function params ids) (ok : m.perform p call = ⟨es, .ok z⟩) :
    ∃ values, List.Forall₂ (fun id v => m.slots.get? id = some v) ids values ∧ ids.length = params ∧
      es = [.called function m.stack.depth] ∧ z = m.calling target function values := by
  have none : ¬ ((∃ id ∈ ids, m.slots.get? id = none) ∨ ids.length ≠ params) := by
    rw [← calls.faults, ok]
    rintro ⟨fault, hf⟩
    cases hf
  obtain ⟨written, length⟩ := not_or.1 none
  obtain ⟨values, read⟩ := m.slots.exists_values ids fun id hid none => written ⟨id, hid, none⟩
  have enters := calls.enters values read (not_not.1 length)
  rw [ok] at enters
  cases enters
  exact ⟨values, read, not_not.1 length, rfl, rfl⟩

/-! ## The machine after the applications -/

/-- The machine after applications, the first of which is of `c`. -/
def applied (c : Closure) (m : Machine) : List Piece → Machine
  | [] => m
  | q :: pieces => applied (c.apply q.args) (m.store q.target (.function (c.apply q.args))).next pieces

theorem perform_apply (holds : m.slots.get? ref = some (.function c)) (p : Program) (q : Piece) :
    m.perform p (.assign q.target (.apply ref q.args)) =
      ⟨[], .ok (m.store q.target (.function (c.apply q.args))).next⟩ := by
  have load : m.load ref = .ok (.function c) := by rw [Machine.load, Slots.read_eq_ok.2 holds]; rfl
  have evaluate : m.evaluate (.apply ref q.args) = .ok (.pure (.function (c.apply q.args))) := by
    rw [Machine.evaluate, load]; rfl
  rw [perform, evaluate]; rfl

theorem get?_stored (m : Machine) (q : Piece) (c : Closure) (id : Nat) :
    (m.store q.target (.function c)).next.slots.get? id =
      if id = q.target then some (.function c) else m.slots.get? id :=
  m.slots.get?_write q.target id _

theorem performs_applications (holds : m.slots.get? ref = some (.function c)) (p : Program) :
    m.performs p (applications ref pieces) = .ok (m.applied c pieces) := by
  -- each application is of the closure that the one before has stored, so this varies, and so does its slot
  induction pieces generalizing m ref c with
  | nil => rfl
  | cons q pieces ih =>
    rw [applications, performs, perform_apply holds]
    exact ih (by rw [get?_stored, if_pos rfl])

theorem applied_eq (m : Machine) (c : Closure) (pieces : List Piece) :
    m.applied c pieces = { m with slots := (m.applied c pieces).slots, pc := m.pc + pieces.length } := by
  induction pieces generalizing m c with
  | nil => rfl
  | cons q pieces ih =>
    have pc : m.pc + 1 + pieces.length = m.pc + (q :: pieces).length := by rw [List.length_cons]; omega
    rw [← pc]
    exact ih ..

theorem applied_stack (m : Machine) (c : Closure) (pieces : List Piece) : (m.applied c pieces).stack = m.stack := by
  rw [applied_eq]

theorem applied_others {id : Nat} (h : id ∉ pieces.map Piece.target) :
    (m.applied c pieces).slots.get? id = m.slots.get? id := by
  induction pieces generalizing m c with
  | nil => rfl
  | cons q pieces ih =>
    obtain ⟨hq, rest⟩ := not_or.1 (List.mem_cons.not.1 h)
    rw [applied, ih rest, get?_stored, if_neg hq]

theorem applied_results {before after : List Piece} {q : Piece}
    (targets : ((before ++ q :: after).map Piece.target).Nodup) :
    (m.applied c (before ++ q :: after)).slots.get? q.target =
      some (.function (c.apply (allArgs (before ++ [q])))) := by
  induction before generalizing m c with
  | nil =>
    -- the later applications store into other slots
    obtain ⟨later, -⟩ := List.nodup_cons.1 targets
    rw [List.nil_append, applied, applied_others later, get?_stored, if_pos rfl]
    simp [allArgs]
  | cons q' before ih =>
    rw [List.cons_append, applied, ih (List.nodup_cons.1 targets).2, Closure.apply_apply]
    rfl

theorem applied_last (holds : m.slots.get? ref = some (.function c)) :
    (m.applied c pieces).slots.get? (lastTarget ref pieces) = some (.function (c.apply (allArgs pieces))) := by
  induction pieces generalizing m ref c with
  | nil => rw [allArgs, List.flatMap_nil, Closure.apply_nil]; exact holds
  | cons q pieces ih =>
    rw [applied, lastTarget, ih (by rw [get?_stored, if_pos rfl]), Closure.apply_apply]
    rfl

theorem Ahead.next {x : Machine} {i : Instruction} {is : List Instruction} (ahead : m.Ahead p (i :: is))
    (same : x = { m with slots := x.slots, pc := m.pc + 1 }) : x.Ahead p is := by
  rw [same]
  have place (j : Nat) : m.pc + (j + 1) = m.pc + 1 + j := by omega
  refine ⟨ahead.running, fun j i hi => ?_, fun j hj => ?_⟩
  · exact place j ▸ ahead.code (j + 1) i hi
  · obtain ⟨settled, inside⟩ := ahead.runs (j + 1) (Nat.succ_lt_succ hj)
    exact ⟨settled, fun r outer hr => place j ▸ inside r outer hr⟩

theorem Ahead.advance {i : Instruction} {is : List Instruction} (ahead : m.Ahead p (i :: is)) :
    m.advance p = Transition.note (.executing m.function m.pc i) (m.perform p i) := by
  have runs : m.Runs := ahead.runs 0 (Nat.succ_pos _)
  obtain ⟨f, hf, hi⟩ : p.At m.function m.pc i := ahead.code 0 i rfl
  simp only [runs.advance, execute, hf, hi]

theorem applied_after {is : List Instruction} (holds : m.slots.get? ref = some (.function c))
    (ahead : m.Ahead p (applications ref pieces ++ is)) :
    m.after? p pieces.length = some (m.applied c pieces) ∧ (m.applied c pieces).Ahead p is := by
  induction pieces generalizing m ref c with
  | nil => exact ⟨rfl, ahead⟩
  | cons q pieces ih =>
    have move : m.advance p = _ := ahead.advance
    rw [perform_apply holds] at move
    rw [List.length_cons, after?_front ahead.running move]
    exact ih (by rw [get?_stored, if_pos rfl]) (ahead.next rfl)

/-- Function values may be applied in pieces. -/
theorem application_in_pieces {k : PiecewiseCall} (valid : p.Valid) (reach : Reachable p m)
    (holds : m.slots.get? k.ref = some (.function c)) (apart : k.Apart c) : ∃ definition y,
      p.functions[c.function]? = some definition ∧ Applied p m k c definition.params y := by
  obtain ⟨definition, found⟩ : ∃ definition, p.functions[c.function]? = some definition :=
    ⟨_, Array.getElem?_eq_getElem ((reach.holding_within valid).slots k.ref _ holds c rfl)⟩
  refine ⟨definition, m.applied c k.pieces, found, ?_⟩
  let y := m.applied c k.pieces
  have agree (id : Nat) (hid : id ∈ k.passed c) : y.slots.get? id = m.slots.get? id :=
    applied_others (apart.passed id hid)
  have result : y.slots.get? k.result = some (.function (c.apply (allArgs k.pieces))) := applied_last holds
  have passes (x : Machine) (hx : x.slots.get? k.result = y.slots.get? k.result) :
      x.Calls p k.call k.target c.function definition.params (k.passed c) :=
    calls (hx.trans result) found k.target k.last
  have atOnce : m.Calls p k.atOnce k.target c.function definition.params (k.passed c) := by
    rw [PiecewiseCall.passed, List.append_assoc]
    exact calls holds found k.target _
  exact
    { executed := performs_applications holds p
      frame := applied_eq ..
      others := fun id h => applied_others h
      function := (applied_others apart.function).trans holds
      results := by
        intro before q after pieces
        have targets := apart.targets
        rw [PiecewiseCall.stored, pieces] at targets
        rw [pieces]
        exact applied_results targets
      run := by
        intro ahead
        obtain ⟨after, next⟩ := applied_after holds ahead
        exact ⟨after, next.advance⟩
      passes
      same := by
        intro x hx holds'
        rw [PiecewiseCall.call, PiecewiseCall.atOnce, perform, perform, callee_apply holds' (hx.trans result)]
      atOnce
      faults := by
        rw [(passes y rfl).faults, atOnce.faults]
        refine or_congr_left (exists_congr fun id => and_congr_right fun hid => ?_)
        rw [agree id hid]
      enters := by
        intro es z ok
        obtain ⟨values, read, length, rfl, rfl⟩ := atOnce.of_ok ok
        have read' := (forall₂_mem read).imp fun id v h => (agree id h.1).trans h.2
        have stack : y.stack = m.stack := applied_stack ..
        exact ⟨values, read, rfl, stack ▸ (passes y rfl).enters values read' length⟩
      keeps := by
        intro es z ok
        obtain ⟨values, -, -, -, rfl⟩ := (passes y rfl).of_ok ok
        rfl }

/-- A program that applies a function of two parameters to one argument at a time. -/
def argumentsInPieces : Program :=
  ⟨#[⟨"main", 1, #[.assign 0 (.function 1), .assign 1 (.integer 1), .assign 2 (.integer 2), .assign 3 (.apply 0 [1]),
    .assign 4 (.apply 3 [2]), .call 5 4 []]⟩, ⟨"f", 2, #[]⟩]⟩

/-- The run comes to the call, and the function gets both arguments, in their order. -/
theorem application_in_pieces_two : ∃ m y, argumentsInPieces.Valid ∧ Reachable argumentsInPieces m ∧
    m.slots.get? 0 = some (.function ⟨1, []⟩) ∧
    PiecewiseCall.Apart ⟨0, [⟨3, [1]⟩, ⟨4, [2]⟩], 5, []⟩ ⟨1, []⟩ ∧ m.after? argumentsInPieces 2 = some y ∧
    y.perform argumentsInPieces (.call 5 4 []) =
      ⟨[.called 1 1], .ok (y.calling 5 1 [.integer 1, .integer 2])⟩ := by
  have valid : argumentsInPieces.Valid := by decide
  have started : Reachable argumentsInPieces ((ready argumentsInPieces).started []) := .start .ready rfl
  have reach := ((started.advance rfl rfl).advance rfl rfl).advance rfl rfl
  have apart : PiecewiseCall.Apart ⟨0, [⟨3, [1]⟩, ⟨4, [2]⟩], 5, []⟩ ⟨1, []⟩ := ⟨by decide, by decide, by decide⟩
  obtain ⟨definition, y, found, applied⟩ := application_in_pieces valid reach rfl apart
  have code (j : Nat) (i : Instruction)
      (hi : [.assign 3 (.apply 0 [1]), .assign 4 (.apply 3 [2]), .call 5 4 []][j]? = some i) :
      argumentsInPieces.At 0 (3 + j) i := by
    match j, hi with
    | 0, hi | 1, hi | 2, hi => exact ⟨_, rfl, hi⟩
  obtain ⟨after, -⟩ := applied.run ⟨rfl, code, fun _ _ => ⟨rfl, nofun⟩⟩
  obtain ⟨values, read, -, enters⟩ := applied.enters [.called 1 1] _ rfl
  cases read with
  | cons one read => cases read with
    | cons two read =>
      cases read
      cases one
      cases two
      exact ⟨_, y, valid, reach, rfl, apart, after, enters⟩

end Machine

end SlotVM
