/-
Returns through finally blocks. A return, or the end of a function, runs the finally blocks of the function's try
frames from the top of the stack down, then takes the frame of the function off and delivers the value.
`returns_through_cleanups`: the delivered value is that of the beginning, whatever the blocks stored, called or
returned; a block that throws ends the return, and nothing is delivered.
-/
import SlotVM.Proofs.Control.CallStep
import SlotVM.Proofs.Control.Descent

namespace SlotVM.Machine

open Transition

/-- Who gets the value that the function of `m` returns with the transition from `x` to `y`. -/
inductive Receives (p : Program) (m : Machine) (value : Option Value) (x y : Machine) : Prop
  /-- The caller goes on behind its call. The slot of the call gets the value, and nothing if there is none. -/
  | caller {c : CallFrame} {k : Continuation} {target ref args} (call : m.stack.call? m.frame = some c)
      (caller : c.caller = some k) (code : p.At k.function k.pc (.call target ref args))
      (function : y.function = k.function) (frame : y.frame = k.frame) (pc : y.pc = k.pc + 1)
      (slots : y.slots = match value with
        | some v => x.slots.write target v
        | none => x.slots)
  /-- The run is over. -/
  | entry {c : CallFrame} (call : m.stack.call? m.frame = some c) (caller : c.caller = none)
      (halted : y.halted = true) (outcome : y.outcome = .ok (.returned value)) (slots : y.slots = x.slots)

/-- The return of `value` that `m` began is at its end in `y`. The finally ranges above the frame of the function are
those of the blocks that have run; the frame is gone, and those below it are still there. -/
structure Delivered (p : Program) (m : Machine) (value : Option Value) (blocks : List (Nat × Span)) (x y : Machine) :
    Prop where
  blocks : blocks = cleanupsFrom m.frame m.stack.kinds
  kinds : y.stack.kinds = bottom m.frame m.stack.kinds
  depth : y.stack.depth = m.frame
  receives : Receives p m value x y
  returned : y.returned = value
  pending : y.pending = m.pending
  regions : y.regions = m.regions
  constants : y.constants = x.constants

/-- How `m` returns a value. -/
structure Returns (p : Program) (m : Machine) (value : Option Value) : Prop where
  /-- The blocks run one after the other, from the top of the stack down. -/
  next : ∀ ⦃blocks x e range t⦄, Continues p m blocks x → Begins p x e range t → NextCleanup p m blocks e range t
  /-- After the last one the value is delivered. -/
  delivers : ∀ ⦃blocks x⦄, Continues p m blocks x → (∀ e range t, ¬ Begins p x e range t) →
    ∃ es y, x.advance p = ⟨es, .ok y⟩ ∧ Delivered p m value blocks x y
  /-- If all blocks come to their ends, there is a last one. -/
  completes : CleanupsComplete p m → ∃ blocks x es y, Continues p m blocks x ∧ x.advance p = ⟨es, .ok y⟩ ∧
    Delivered p m value blocks x y
  /-- A block that throws ends the return. -/
  givenUp : ∀ ⦃blocks x e range t w z⦄, Continues p m blocks x → Begins p x e range t →
    During p (e.region range t) e.regions (e.entered range t) w → w.Ends (e.region range t) e.regions .threw z →
    ∃ es y, w.advance p = ⟨es, .ok y⟩ ∧ GivenUp m e w y ∧ y.returned = none

variable {p : Program} {m x z : Machine} {value : Option Value} {explicit : Bool} {blocks : List (Nat × Span)}

/-- What a return does with its first transition. -/
theorem Exits.advance (exits : Exits p m value) : ∃ explicit event,
    (∀ function range depth, event ≠ .cleanupBegan function range depth) ∧
      m.advance p = note event ({ m with returned := none }.resume (.ret value explicit)) := by
  cases exits with
  | @ret ref v runs code read =>
    obtain ⟨f, hf, hi⟩ := code
    refine ⟨true, .executing m.function m.pc (.ret ref), nofun, ?_⟩
    simp only [runs.advance, execute, hf, hi, perform, withResult, read]
    rfl
  | @fallOff f runs function code =>
    refine ⟨false, .fellOff m.function, nofun, ?_⟩
    simp only [runs.advance, execute, function, code]
    rfl

theorem Exits.settled (exits : Exits p m value) : m.pending.isActive = false := by
  cases exits with
  | ret runs | fallOff runs => exact runs.settled

/-- A return begins at the top of the stack. -/
theorem Exits.descent (exits : Exits p m value) (valid : p.Valid) (reach : Reachable p m) (running : m.halted = false) :
    ∃ explicit, Descent p m (.ret value explicit) [] m { m with returned := none } (.ret value explicit) := by
  obtain ⟨explicit, event, silent, advance⟩ := exits.advance
  have wf := reach.wellFormed valid
  refine ⟨explicit, reach, running, ⟨[event], ?_, advance⟩, rfl, rfl, wf.of_eq rfl rfl rfl rfl wf.pc,
    (wf.top_of_running running).ne_nil, .begin rfl ⟨rfl, rfl, rfl, rfl, rfl⟩ rfl⟩
  intro function range depth mem
  exact silent _ _ _ (List.mem_singleton.1 mem).symm

/-- At the frame of the function the value is delivered. -/
theorem Descent.delivers (h : Descent p m (.ret value explicit) blocks x z (.ret value explicit))
    (settled : m.pending.isActive = false) {f : Frame} {rest : Stack} {call : CallFrame}
    (top : z.stack = rest.push f) (kind : f.kind = .call call)
    (go : z.resume (.ret value explicit) = { z with stack := rest }.deliver call value) :
    ∃ es y, x.advance p = ⟨es, .ok y⟩ ∧ Delivered p m value blocks x y := by
  obtain ⟨before, -, advance⟩ := h.advance
  rw [go] at advance
  have hframe : m.frame = rest.depth := h.descends.place.frame.symm.trans (h.wellFormed.frame_eq top kind)
  have hcall : m.stack.call? m.frame = some call := by
    refine Stack.call?_of_kind ?_
    have hlt : m.frame < z.stack.depth := by rw [hframe, top, Stack.depth_push]; omega
    rw [Stack.map_kind_get?_of_suffix h.descends.kinds hlt, top, Stack.get?_push, if_pos hframe, Option.map_some, kind]
  have hblocks : blocks = cleanupsFrom m.frame m.stack.kinds := by
    have hheld : f.kind.held rest.kinds = [] := by rw [kind]; rfl
    rw [hframe, h.descends.cleanups_below top, hheld, List.append_nil]
  have hkinds : rest.kinds = bottom m.frame m.stack.kinds := by
    rw [hframe]
    exact h.descends.below top
  have rests := h.wellFormed.rests top
  rw [kind] at rests
  have place := h.descends.place
  -- the function is the entry, or a call of the program has begun it
  rcases rests.call with ⟨entry, empty⟩ | ⟨i, d, -, called⟩
  · rw [deliver, entry.caller] at advance
    have halted : { z with stack := rest, returned := value }.halted = true := Stack.kinds_eq_nil_iff.1 empty
    refine ⟨_, _, advance, hblocks, hkinds, hframe.symm, .entry hcall entry.caller halted ?_ h.slots, rfl,
      place.pending, place.regions, h.constants⟩
    rw [outcome, if_pos halted, place.pending]
    cases hp : m.pending with
    | active error => rw [hp] at settled; cases settled
    | _ => rfl
  · obtain ⟨pc, target, ref, args, caller, code, returnTarget⟩ := called.caller
    rw [deliver, caller] at advance
    refine ⟨_, _, advance, hblocks, hkinds, hframe.symm, .caller hcall caller code rfl rfl rfl ?_, rfl, place.pending,
      place.regions, h.constants⟩
    show ({ z with stack := rest }.received call value _).slots = _
    rw [← h.slots]
    exact received_slots returnTarget

/-- In every reachable machine that is about to return a value or to come to the end of its function, whose frame is
not below the floor: the finally blocks of the function run from the top of the stack down, and the value of the
beginning is delivered unless one of them throws. -/
theorem returns_through_cleanups {p : Program} {m : Machine} {value : Option Value} (valid : p.Valid)
    (reach : Reachable p m) (running : m.halted = false) (exits : Exits p m value) (floor : m.floor ≤ m.frame) :
    Returns p m value := by
  obtain ⟨explicit, begin_⟩ := exits.descent valid reach running
  have delivers : ∀ ⦃blocks x⦄, Continues p m blocks x → (∀ e range t, ¬ Begins p x e range t) →
      ∃ es y, x.advance p = ⟨es, .ok y⟩ ∧ Delivered p m value blocks x y := by
    intro blocks x continues none
    obtain ⟨z, t, h, meets⟩ := begin_.continues valid continues
    have remains : t = .ret value explicit := h.descends.remains
    subst remains
    generalize go : z.resume (.ret value explicit) = tr at meets
    cases meets with
    | cleanup room top kind => exact absurd (h.interrupts go) (none _ _ _)
    | call room top kind => exact h.delivers exits.settled top kind go
    | returnAtFloor empty =>
      -- the frame of the function is still there, and it may be taken off
      have hframe := (h.wellFormed.top h.owned).lt_length
      rw [Stack.length_kinds, h.descends.place.frame] at hframe
      have hfloor : z.floor = m.floor := by unfold Machine.floor; rw [h.descends.place.regions]
      unfold available at empty
      omega
  refine ⟨?_, delivers, ?_, ?_⟩
  · intro blocks x e range t continues begins
    obtain ⟨z, t', h, meets⟩ := begin_.continues valid continues
    exact h.nextCleanup valid meets begins
  · intro complete
    obtain ⟨blocks, x, continues, none⟩ := begin_.last valid .begin complete
    obtain ⟨es, y, move, delivered⟩ := delivers continues none
    exact ⟨blocks, x, es, y, continues, move, delivered⟩
  · intro blocks x e range t w z continues begins during ends
    obtain ⟨z', t', h, meets⟩ := begin_.continues valid continues
    obtain ⟨es, y, move, up, forgets⟩ := h.givenUp valid meets begins during ends
    exact ⟨es, y, move, up, forgets value explicit rfl⟩

/-- A program with a function that returns `7` from a try construct. The finally block stores another value in the
slot that is returned, and calls a function that returns it. -/
def storeInCleanup : Program :=
  ⟨#[⟨"main", 1, #[.assign 0 (.function 1), .call 1 0 []]⟩,
    ⟨"f", 0, #[.assign 4 (.function 2), .pushTry [] (some ⟨4, 6⟩), .assign 2 (.integer 7), .ret 2,
      .assign 2 (.integer 8), .call 3 4 []]⟩,
    ⟨"g", 0, #[.ret 2]⟩]⟩

/-- The caller gets `7`. -/
theorem returns_through_cleanups_store : ∃ m, storeInCleanup.Valid ∧ Reachable storeInCleanup m ∧ m.halted = false ∧
    Exits storeInCleanup m (some (.integer 7)) ∧ m.floor ≤ m.frame ∧ CleanupsComplete storeInCleanup m ∧
    ∃ x es y, Continues storeInCleanup m [(1, ⟨4, 6⟩)] x ∧ x.advance storeInCleanup = ⟨es, .ok y⟩ ∧
      x.slots.get? 2 = some (.integer 8) ∧ y.function = 0 ∧ y.slots.get? 1 = some (.integer 7) := by
  have valid : storeInCleanup.Valid := by decide
  let called := ((((ready storeInCleanup).started []).storeComputed 0 (.pure (.function ⟨1, []⟩))).next).calling 1 1 []
  let pushed := (((called.storeComputed 4 (.pure (.function ⟨2, []⟩))).next).pushFrame
    (.attempt [] (some ⟨4, 6⟩))).next
  let m := (pushed.storeComputed 2 (.pure (.integer 7))).next
  let e := { m with stack := called.stack, returned := none }
  have started : Reachable storeInCleanup ((ready storeInCleanup).started []) := .start .ready rfl
  have reach : Reachable storeInCleanup m :=
    ((((started.advance rfl rfl).advance rfl rfl).advance rfl rfl).advance rfl rfl).advance rfl rfl
  have exits : Exits storeInCleanup m (some (.integer 7)) :=
    .ret ⟨rfl, fun r outer h => absurd h.symm (List.cons_ne_nil r outer)⟩ ⟨_, rfl, rfl⟩ rfl
  let entered := e.entered ⟨4, 6⟩ (.ret (some (.integer 7)) true)
  let stored := (entered.storeComputed 2 (.pure (.integer 8))).next
  let inner := stored.calling 3 2 []
  let x := { inner with stack := e.stack }.received ⟨2, [], some 3, some ⟨1, 1, 5⟩⟩ (some (.integer 8)) ⟨1, 1, 5⟩
  have inside (w : Machine) (regions : w.regions = entered.regions) (settled : w.pending = .none) (pc : w.pc < 6) :
      ∀ exit z, ¬ w.Ends (e.region ⟨4, 6⟩ (.ret (some (.integer 7)) true)) [] exit z := by
    rintro exit z ends
    cases ends with
    | completed regions settled frame stop => exact absurd stop (Nat.not_le.2 pc)
    | threw regions active => rw [settled] at active; cases active
  have stores : entered.advance storeInCleanup = ⟨[.executing 1 4 (.assign 2 (.integer 8))], .ok stored⟩ := rfl
  have calls : stored.advance storeInCleanup = ⟨[.executing 1 5 (.call 3 4 []), .called 2 2], .ok inner⟩ := rfl
  have goesBack : inner.advance storeInCleanup = ⟨[.executing 2 0 (.ret 2), .returned 2 1 5], .ok x⟩ := rfl
  have completes : Completes storeInCleanup e ⟨4, 6⟩ (.ret (some (.integer 7)) true) x := by
    refine ⟨.step (.step (.step .begin (inside entered rfl rfl ?_) stores) (inside stored rfl rfl ?_) calls)
      (inside inner rfl rfl ?_) goesBack, _, .completed rfl rfl rfl ?_ rfl⟩
    all_goals decide
  have begins : Begins storeInCleanup m e ⟨4, 6⟩ (.ret (some (.integer 7)) true) := ⟨[.executing 1 3 (.ret 2)], rfl⟩
  have last : ∀ e range t, ¬ Begins storeInCleanup x e range t := by
    intro e range t begins
    have event : .cleanupBegan e.function range e.stack.depth ∈ [Event.returned 1 0 1] := (begins.move rfl).1
    simp at event
  have returns := returns_through_cleanups valid reach rfl exits (Nat.zero_le _)
  have continues : Continues storeInCleanup m [(1, ⟨4, 6⟩)] x := .block .begin begins completes
  obtain ⟨es, y, move, delivered⟩ := returns.delivers continues last
  have slots : y.function = 0 ∧ y.slots = x.slots.write 1 (.integer 7) := by
    cases delivered.receives with
    | caller call caller code function frame pc slots =>
      cases call
      cases caller
      obtain ⟨f, hf, hi⟩ := code
      cases hf
      cases hi
      exact ⟨function, slots⟩
    | entry call caller => cases call; cases caller
  refine ⟨m, valid, reach, rfl, exits, Nat.zero_le _, .block begins completes (.none last), x, es, y, continues, move,
    rfl, slots.1, ?_⟩
  rw [slots.2, Slots.get?_write, if_pos rfl]

end SlotVM.Machine
