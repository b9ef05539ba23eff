/-
What a transition can do, said once. `Carries` follows a transfer of control frame by frame to the end
of the transition, `Performs` lists the effects of the instructions, and `Move` puts them together with
the ends of finally blocks. `advance_move`: every transition that ends without a fault is a move. What
runs preserve is then shown of moves, by induction on the frames that they take off.
-/
import SlotVM.Machine.Advance
import SlotVM.Proofs.Stack.Kinds

namespace SlotVM

open Transition

/-! ## Results of transitions -/

@[simp] theorem Transition.done_eq {m m' : Machine} {es : List Event} :
    done m = ⟨es, .ok m'⟩ ↔ es = [] ∧ m' = m := by
  simp only [done, Transition.mk.injEq, Except.ok.injEq]
  exact and_congr eq_comm eq_comm

@[simp] theorem Transition.fail_eq {f : Fault} {m' : Machine} {es : List Event} :
    fail f = ⟨es, .ok m'⟩ ↔ False := by
  simp [fail]

@[simp] theorem Transition.note_eq {e : Event} {t : Transition} {m' : Machine} {es : List Event} :
    note e t = ⟨es, .ok m'⟩ ↔ ∃ es', es = e :: es' ∧ t = ⟨es', .ok m'⟩ := by
  obtain ⟨events, result⟩ := t
  simp only [note, Transition.mk.injEq]
  constructor
  · rintro ⟨rfl, h⟩; exact ⟨events, rfl, rfl, h⟩
  · rintro ⟨es', rfl, rfl, h⟩; exact ⟨rfl, h⟩

/-! ## Transfers -/

/-- Whether a transfer takes off a frame of this kind and goes on at once. -/
def Transfer.Passes : Transfer → FrameKind → Prop
  | _, .call _ | _, .attempt _ (some _) | .exitLoop _ _ 0, .loop _ _ => False
  | _, _ => True

/-- What is left of a transfer when it has taken off a frame. -/
def Transfer.past (t : Transfer) (f : Frame) : Transfer :=
  match t, f.kind with
  | .unwind _ _, .attempt catches _ => .unwind f.scope catches
  | .unwind _ _, _ => .unwind f.scope []
  | .exitLoop exit depth (remaining + 1), .loop _ _ => .exitLoop exit depth remaining
  | t, _ => t

namespace Machine

/-- Whether a transfer goes on to take frames off. -/
def Seeks (m : Machine) : Transfer → Prop
  | .pop => False
  | .unwind _ catches => m.handler? catches = none
  | .exitLoop _ _ _ | .ret _ _ => True

/-- Carrying out a transfer: what happens, and the machine at the end of the transition. -/
inductive Carries : Machine → Transfer → List Event → Machine → Prop
  | popped {m} : Carries m .pop [] m.next
  | caught {m scope catches clause error} (h : m.handler? catches = some (clause, error)) :
      Carries m (.unwind scope catches) [.caught error clause] (m.handling scope clause error)
  | uncaught {m scope catches} (h : m.handler? catches = none) (empty : m.available = 0) :
      Carries m (.unwind scope catches) [] m
  /-- A try frame is taken off and its finally block begins. -/
  | cleanup {m t catches range} {f : Frame} {rest : Stack} (seeks : m.Seeks t)
      (room : 0 < m.available) (top : m.stack = rest.push f) (kind : f.kind = .attempt catches (some range)) :
      Carries m t [.cleanupBegan m.function range rest.depth]
        ({ m with stack := rest }.entered range (t.past f))
  | pass {m t es m'} {f : Frame} {rest : Stack} (seeks : m.Seeks t) (room : 0 < m.available)
      (top : m.stack = rest.push f) (passes : t.Passes f.kind)
      (go : Carries { m with stack := rest } (t.past f) es m') : Carries m t es m'
  /-- An error leaves a function. -/
  | abort {m scope catches es m'} {f : Frame} {rest : Stack} {call : CallFrame} (seeks : m.handler? catches = none)
      (room : 0 < m.available) (top : m.stack = rest.push f) (kind : f.kind = .call call)
      (go : Carries ({ m with stack := rest }.goBack call.caller) (.unwind f.scope []) es m') :
      Carries m (.unwind scope catches) es m'
  /-- The loop to be left is reached. -/
  | left {m exit depth start stop} {f : Frame} {rest : Stack} (room : 0 < m.available)
      (top : m.stack = rest.push f)
      (kind : f.kind = .loop start stop) :
      Carries m (.exitLoop exit depth 0) [.loopLeft exit depth (exit.target start stop)]
        { m with stack := rest, pc := exit.target start stop }
  | returned {m value explicit call k} {f : Frame} {rest : Stack} (room : 0 < m.available)
      (top : m.stack = rest.push f)
      (kind : f.kind = .call call) (caller : call.caller = some k) :
      Carries m (.ret value explicit) [.returned call.function k.function k.pc]
        ({ m with stack := rest }.received call value k)
  /-- The entry function returns. -/
  | ended {m value explicit call} {f : Frame} {rest : Stack} (room : 0 < m.available)
      (top : m.stack = rest.push f)
      (kind : f.kind = .call call) (caller : call.caller = none) :
      Carries m (.ret value explicit) [.entryReturned value]
        { m with stack := rest, returned := value }

theorem available_pop {m : Machine} {f : Frame} {rest : Stack} {n : Nat} (top : m.stack = rest.push f)
    (h : m.available = n + 1) : { m with stack := rest }.available = n := by
  have h' : rest.depth + 1 - m.floor = n + 1 := by rw [← h, available, top, Stack.depth_push]
  show rest.depth - m.floor = n
  omega

theorem pop?_available {m : Machine} (h : 0 < m.available) : m.stack.pop? ≠ none := by
  intro hp
  have : m.stack.depth = 0 := by rw [m.stack.depth_eq, Stack.pop?_eq_none_iff.1 hp]; rfl
  unfold available at h
  omega

theorem goBack_stack (m : Machine) (k : Option Continuation) : (m.goBack k).stack = m.stack := by
  cases k <;> rfl

theorem goBack_regions (m : Machine) (k : Option Continuation) : (m.goBack k).regions = m.regions := by
  cases k <;> rfl

theorem goBack_available (m : Machine) (k : Option Continuation) :
    (m.goBack k).available = m.available := by
  cases k <;> rfl

theorem handler?_nil (m : Machine) : m.handler? [] = none := by
  cases h : m.pending.error? <;> simp [handler?, h]

theorem unwind_carries : ∀ {n : Nat} {m m' : Machine} {es : List Event} (scope : Scope)
    (catches : List CatchClause), m.handler? catches = none → m.available = n →
    m.unwind n = ⟨es, .ok m'⟩ → Carries m (.unwind scope catches) es m'
  | 0, m, m', es, scope, catches, seeks, hn, h => by
    obtain ⟨rfl, rfl⟩ := done_eq.1 h
    exact .uncaught seeks hn
  | n + 1, m, m', es, scope, catches, seeks, hn, h => by
    have room : 0 < m.available := by omega
    unfold unwind at h
    split at h
    · rename_i hp
      exact absurd hp (pop?_available room)
    · rename_i f rest hp
      have top := Stack.eq_push_of_pop? hp
      have hrest := available_pop top hn
      have free : (Transfer.unwind scope catches).Passes f.kind → ∀ catches',
          (Transfer.unwind scope catches).past f = .unwind f.scope catches' → 
          Carries { m with stack := rest } (.unwind f.scope catches') es m' →
          Carries m (.unwind scope catches) es m' := fun hk catches' hpast hgo =>
        .pass seeks room top hk (by rw [hpast]; exact hgo)
      split at h
      · rename_i catches' range kind
        simp only [enter, note_eq, done_eq] at h
        obtain ⟨_, rfl, rfl, rfl⟩ := h
        have := Carries.cleanup (t := .unwind scope catches) seeks room top kind
        simpa only [Transfer.past, kind] using this
      · rename_i catches' kind
        refine free (by simp [Transfer.Passes, kind]) catches' (by simp [Transfer.past, kind]) ?_
        dsimp only at h
        split at h
        · rename_i clause error hh
          simp only [handle, note_eq, done_eq] at h
          obtain ⟨_, rfl, rfl, rfl⟩ := h
          exact .caught hh
        · rename_i hh
          exact unwind_carries f.scope catches' hh hrest h
      · rename_i call kind
        refine .abort seeks room top kind ?_
        exact unwind_carries f.scope [] (handler?_nil _) (by rw [goBack_available]; exact hrest) h
      · rename_i kind
        refine free (by simp [Transfer.Passes, kind]) [] (by simp [Transfer.past, kind]) ?_
        exact unwind_carries f.scope [] (handler?_nil _) hrest h
      · rename_i start stop kind
        refine free (by simp [Transfer.Passes, kind]) [] (by simp [Transfer.past, kind]) ?_
        exact unwind_carries f.scope [] (handler?_nil _) hrest h

theorem exitLoop_carries : ∀ {n : Nat} {m m' : Machine} {es : List Event} (exit : LoopExit)
    (depth remaining : Nat), m.available = n → m.exitLoop exit depth remaining n = ⟨es, .ok m'⟩ →
    Carries m (.exitLoop exit depth remaining) es m'
  | 0, m, m', es, exit, depth, remaining, hn, h => (fail_eq.1 h).elim
  | n + 1, m, m', es, exit, depth, remaining, hn, h => by
    have room : 0 < m.available := by omega
    unfold exitLoop at h
    split at h
    · exact (fail_eq.1 h).elim
    · rename_i f rest hp
      have top := Stack.eq_push_of_pop? hp
      have hrest := available_pop top hn
      have past : (∀ start stop, f.kind ≠ .loop start stop) →
          (Transfer.exitLoop exit depth remaining).past f = .exitLoop exit depth remaining := by
        intro hk
        cases remaining <;> cases hf : f.kind <;> simp_all [Transfer.past]
      split at h
      · exact (fail_eq.1 h).elim
      · rename_i plain
        split at h
        · rename_i start stop kind
          cases remaining with
          | zero =>
            simp only [note_eq, done_eq] at h
            obtain ⟨_, rfl, rfl, rfl⟩ := h
            exact .left room top kind
          | succ remaining =>
            refine .pass trivial room top (by simp [Transfer.Passes, kind]) ?_
            simp only [Transfer.past, kind]
            exact exitLoop_carries exit depth remaining hrest h
        · rename_i catches range kind
          simp only [enter, note_eq, done_eq] at h
          obtain ⟨_, rfl, rfl, rfl⟩ := h
          have := Carries.cleanup (t := .exitLoop exit depth remaining) trivial room top kind
          rwa [past (by simp [kind])] at this
        · rename_i call kind
          exact absurd (by rw [Frame.isFunction, kind]) plain
        all_goals
          rename_i kind
          refine .pass trivial room top (by cases remaining <;> simp [Transfer.Passes, kind]) ?_
          rw [past (by simp [kind])]
          exact exitLoop_carries exit depth remaining hrest h

theorem deliver_carries {m m' : Machine} {es : List Event} {f : Frame} {rest : Stack} {call : CallFrame}
    {value : Option Value} (explicit : Bool) (room : 0 < m.available) (top : m.stack = rest.push f)
    (kind : f.kind = .call call) (h : { m with stack := rest }.deliver call value = ⟨es, .ok m'⟩) :
    Carries m (.ret value explicit) es m' := by
  unfold deliver at h
  split at h
  · rename_i caller
    simp only [note_eq, done_eq] at h
    obtain ⟨_, rfl, rfl, rfl⟩ := h
    exact .ended room top kind caller
  · rename_i k caller
    simp only [note_eq, done_eq] at h
    obtain ⟨_, rfl, rfl, rfl⟩ := h
    exact .returned room top kind caller

theorem leaveFunction_carries : ∀ {n : Nat} {m m' : Machine} {es : List Event} (value : Option Value)
    (explicit : Bool), m.available = n → m.leaveFunction value explicit n = ⟨es, .ok m'⟩ →
    Carries m (.ret value explicit) es m'
  | 0, m, m', es, value, explicit, hn, h => (fail_eq.1 h).elim
  | n + 1, m, m', es, value, explicit, hn, h => by
    have room : 0 < m.available := by omega
    unfold leaveFunction at h
    split at h
    · exact (fail_eq.1 h).elim
    · rename_i f rest hp
      have top := Stack.eq_push_of_pop? hp
      have hrest := available_pop top hn
      dsimp only at h
      split at h
      · rename_i call kind
        exact deliver_carries explicit room top kind h
      · rename_i catches range kind
        simp only [enter, note_eq, done_eq] at h
        obtain ⟨_, rfl, rfl, rfl⟩ := h
        exact Carries.cleanup (t := .ret value explicit) trivial room top kind
      all_goals
        rename_i kind
        refine .pass trivial room top (by simp [Transfer.Passes, kind]) ?_
        exact leaveFunction_carries value explicit hrest h

theorem resume_carries {m m' : Machine} {es : List Event} {t : Transfer}
    (h : m.resume t = ⟨es, .ok m'⟩) : Carries m t es m' := by
  cases t with
  | pop =>
    obtain ⟨rfl, rfl⟩ := done_eq.1 h
    exact .popped
  | exitLoop exit depth remaining => exact exitLoop_carries exit depth remaining rfl h
  | ret value explicit => exact leaveFunction_carries value explicit rfl h
  | unwind scope catches =>
    unfold resume at h
    dsimp only at h
    split at h
    · rename_i clause error hh
      simp only [handle, note_eq, done_eq] at h
      obtain ⟨_, rfl, rfl, rfl⟩ := h
      exact .caught hh
    · rename_i hh
      exact unwind_carries scope catches hh rfl h

end Machine

/-! ## Instructions -/

/-- The kind of the frame that an instruction pushes. -/
def Instruction.frame? : Instruction → Option FrameKind
  | .pushScope => some .scope
  | .pushLoop start stop => some (.loop start stop)
  | .pushTry catches cleanup => some (.attempt catches cleanup)
  | _ => none

namespace Machine

/-- Whether what an instruction computes fails so that the program can catch it. -/
def Raises (m : Machine) (failure : Raised) : Instruction → Prop
  | .assign _ source => m.evaluate source = .error (.raised failure)
  | .setField ref name value => m.fieldStore ref name value = .error (.raised failure)
  | .setIndex ref index value => m.indexStore ref index value = .error (.raised failure)
  | .setConstant id value => m.constantStore id value = .error (.raised failure)
  | _ => False

/-- Executing an instruction: what happens, and the machine at the end of the transition. -/
inductive Performs (p : Program) (m : Machine) : Instruction → List Event → Machine → Prop
  | assign {target source c} (h : m.evaluate source = .ok c) :
      Performs p m (.assign target source) [] (m.storeComputed target c).next
  | setField {ref name value component v} (h : m.fieldStore ref name value = .ok (component, v)) :
      Performs p m (.setField ref name value) [] (m.store component v).next
  | setIndex {ref index value component v} (h : m.indexStore ref index value = .ok (component, v)) :
      Performs p m (.setIndex ref index value) [] (m.store component v).next
  | setConstant {id value constants} (h : m.constantStore id value = .ok constants) :
      Performs p m (.setConstant id value) [] { m with constants }.next
  | raise {i failure} (h : m.Raises failure i) :
      Performs p m i
        [.raised m.function m.pc failure, .thrown (.string failure.message) m.slots]
        (m.throw (.string failure.message))
  | call {target ref args function values} (h : m.callee p ref args = .ok (function, values)) :
      Performs p m (.call target ref args) [.called function m.stack.depth]
        (m.calling target function values)
  | bind {name ref stack} (h : m.stack.bind name ref = .ok stack) :
      Performs p m (.bind name ref) [] { m with stack }.next
  | push {i kind} (h : i.frame? = some kind) : Performs p m i [] (m.pushFrame kind).next
  | pop {f : Frame} {rest : Stack} (room : max m.floor (m.frame + 1) < m.stack.depth)
      (top : m.stack = rest.push f) (kind : ∀ catches range, f.kind ≠ .attempt catches (some range)) :
      Performs p m .popFrame [] { m with stack := rest }.next
  | popCleanup {catches range} {f : Frame} {rest : Stack}
      (room : max m.floor (m.frame + 1) < m.stack.depth) (top : m.stack = rest.push f)
      (kind : f.kind = .attempt catches (some range)) :
      Performs p m .popFrame [.cleanupBegan m.function range rest.depth]
        ({ m with stack := rest }.entered range .pop)
  | jump {target} : Performs p m (.jump target) [] { m with pc := target }
  | branch {on ref target b} (h : m.condition ref = .ok b) :
      Performs p m (.branch on ref target) [] (if b = on then { m with pc := target } else m.next)
  | branchConstant {id target} :
      Performs p m (.branchConstant id target) []
        (if m.constants.contains id then { m with pc := target } else m.next)
  | nop : Performs p m .nop [] m.next
  | ret {ref v es m'} (h : m.slots.read ref = .ok v)
      (go : Carries { m with returned := none } (.ret (some v) true) es m') :
      Performs p m (.ret ref) es m'
  | throw {ref v} (h : m.slots.read ref = .ok v) :
      Performs p m (.throw ref) [.thrown v m.slots] (m.throw v)
  | exitLoop {exit depth es m'} (go : Carries m (.exitLoop exit depth depth) es m') :
      Performs p m (.exitLoop exit depth) es m'

theorem conclude_ok {α : Type} {m m' : Machine} {es : List Event} {r : Except Failure α}
    {change : Machine → α → Machine} (h : m.conclude r change = ⟨es, .ok m'⟩) :
    (∃ a, r = .ok a ∧ es = [] ∧ m' = (change m a).next) ∨
    ∃ failure, r = .error (.raised failure) ∧
      es = [.raised m.function m.pc failure, .thrown (.string failure.message) m.slots] ∧
      m' = m.throw (.string failure.message) := by
  unfold conclude at h
  split at h
  · exact .inl ⟨_, rfl, done_eq.1 h⟩
  · simp only [note_eq, done_eq] at h
    obtain ⟨_, rfl, _, rfl, rfl, rfl⟩ := h
    exact .inr ⟨_, rfl, rfl, rfl⟩
  · exact (fail_eq.1 h).elim

theorem withResult_ok {α : Type} {m m' : Machine} {es : List Event} {r : Except Cause α}
    {k : Machine → α → Transition} (h : m.withResult r k = ⟨es, .ok m'⟩) :
    ∃ a, r = .ok a ∧ k m a = ⟨es, .ok m'⟩ := by
  unfold withResult at h
  split at h
  · exact ⟨_, rfl, h⟩
  · exact (fail_eq.1 h).elim

theorem popFrame_performs {p : Program} {m m' : Machine} {es : List Event}
    (h : m.popFrame = ⟨es, .ok m'⟩) : Performs p m .popFrame es m' := by
  unfold popFrame at h
  split at h
  · exact (fail_eq.1 h).elim
  · rename_i room
    split at h
    · exact (fail_eq.1 h).elim
    · rename_i f rest hp
      have top := Stack.eq_push_of_pop? hp
      dsimp only at h
      split at h
      · rename_i catches range kind
        simp only [enter, note_eq, done_eq] at h
        obtain ⟨_, rfl, rfl, rfl⟩ := h
        exact .popCleanup (by omega) top kind
      · rename_i kind
        obtain ⟨rfl, rfl⟩ := done_eq.1 h
        exact .pop (by omega) top kind

/-- What an instruction does. -/
theorem perform_performs {p : Program} {m m' : Machine} {es : List Event} {i : Instruction}
    (h : m.perform p i = ⟨es, .ok m'⟩) : Performs p m i es m' := by
  unfold perform at h
  cases i with
  | assign target source =>
    rcases conclude_ok h with ⟨c, hc, rfl, rfl⟩ | ⟨failure, hf, rfl, rfl⟩
    · exact .assign hc
    · exact .raise hf
  | setField ref name value =>
    rcases conclude_ok h with ⟨⟨component, v⟩, hc, rfl, rfl⟩ | ⟨failure, hf, rfl, rfl⟩
    · exact .setField hc
    · exact .raise hf
  | setIndex ref index value =>
    rcases conclude_ok h with ⟨⟨component, v⟩, hc, rfl, rfl⟩ | ⟨failure, hf, rfl, rfl⟩
    · exact .setIndex hc
    · exact .raise hf
  | setConstant id value =>
    rcases conclude_ok h with ⟨constants, hc, rfl, rfl⟩ | ⟨failure, hf, rfl, rfl⟩
    · exact .setConstant hc
    · exact .raise hf
  | call target ref args =>
    obtain ⟨⟨function, values⟩, hc, h⟩ := withResult_ok h
    simp only [enterFunction, note_eq, done_eq] at h
    obtain ⟨_, rfl, rfl, rfl⟩ := h
    exact .call hc
  | bind name ref =>
    obtain ⟨stack, hb, h⟩ := withResult_ok h
    obtain ⟨rfl, rfl⟩ := done_eq.1 h
    exact .bind hb
  | pushScope =>
    obtain ⟨rfl, rfl⟩ := done_eq.1 h
    exact .push rfl
  | pushLoop start stop =>
    obtain ⟨rfl, rfl⟩ := done_eq.1 h
    exact .push rfl
  | pushTry catches cleanup =>
    obtain ⟨rfl, rfl⟩ := done_eq.1 h
    exact .push rfl
  | popFrame => exact popFrame_performs h
  | jump target =>
    obtain ⟨rfl, rfl⟩ := done_eq.1 h
    exact .jump
  | branch on ref target =>
    obtain ⟨b, hb, h⟩ := withResult_ok h
    obtain ⟨rfl, rfl⟩ := done_eq.1 h
    exact .branch hb
  | branchConstant id target =>
    obtain ⟨rfl, rfl⟩ := done_eq.1 h
    exact .branchConstant
  | nop =>
    obtain ⟨rfl, rfl⟩ := done_eq.1 h
    exact .nop
  | ret ref =>
    obtain ⟨v, hv, h⟩ := withResult_ok h
    exact .ret hv (leaveFunction_carries (some v) true rfl h)
  | throw ref =>
    obtain ⟨v, hv, h⟩ := withResult_ok h
    simp only [note_eq, done_eq] at h
    obtain ⟨_, rfl, rfl, rfl⟩ := h
    exact .throw hv
  | exitLoop exit depth => exact .exitLoop (exitLoop_carries exit depth depth rfl h)

/-! ## Transitions -/

/-- The machine that is at an instruction: no error is in search of a handler, and the innermost
finally block is not at its end. -/
structure Runs (m : Machine) : Prop where
  settled : m.pending.isActive = false
  inside : ∀ r outer, m.regions = r :: outer → ¬(m.frame = r.frame ∧ r.range.stop ≤ m.pc)

theorem Runs.advance {m : Machine} {p : Program} (runs : m.Runs) : m.advance p = m.execute p := by
  unfold Machine.advance
  split
  · rw [runs.settled]; rfl
  · rename_i r outer hr
    rw [runs.settled, if_neg (by simp), if_neg (runs.inside r outer hr)]

/-- How a finally block ends. -/
inductive RegionExit
  | completed
  | threw
deriving DecidableEq, Repr

/-- The innermost finally block is at its end: the region, those around it, how the block ends, and the
machine that it goes back to. -/
inductive Ends (m : Machine) : Region → List Region → RegionExit → Machine → Prop
  | completed {r outer} (regions : m.regions = r :: outer) (settled : m.pending.isActive = false)
      (frame : m.frame = r.frame) (stop : r.range.stop ≤ m.pc) (depth : m.stack.depth = r.floor) :
      Ends m r outer .completed (m.restored r outer)
  | threw {r outer} (regions : m.regions = r :: outer) (active : m.pending.isActive = true)
      (depth : m.stack.depth ≤ r.floor) : Ends m r outer .threw (m.escaped r outer)

/-- A transition: what happens in it, and the machine afterwards. -/
inductive Move (p : Program) (m : Machine) : List Event → Machine → Prop
  | execute {f i es m'} (runs : m.Runs) (function : p.functions[m.function]? = some f)
      (code : f.code[m.pc]? = some i) (go : Performs p m i es m') :
      Move p m (.executing m.function m.pc i :: es) m'
  | fallOff {f es m'} (runs : m.Runs) (function : p.functions[m.function]? = some f)
      (code : f.code[m.pc]? = none) (go : Carries { m with returned := none } (.ret none false) es m') :
      Move p m (.fellOff m.function :: es) m'
  /-- The search for a handler. -/
  | search {es m'} (active : m.pending.isActive = true) (room : ∀ r outer, m.regions = r :: outer →
      r.floor < m.stack.depth) (go : Carries m (.unwind .empty []) es m') : Move p m es m'
  | complete {r outer m₁ es m'} (ends : m.Ends r outer .completed m₁)
      (go : Carries m₁ r.transfer es m') : Move p m es m'
  /-- A finally block that ran in the search for a handler threw an error, which goes on searching. -/
  | abandonSearch {r outer m₁ scope catches es m'} (ends : m.Ends r outer .threw m₁)
      (transfer : r.transfer = .unwind scope catches) (go : Carries m₁ (.unwind .empty []) es m') :
      Move p m (.cleanupThrew r.range :: es) m'
  | abandonReturn {r outer m₁ value explicit} (ends : m.Ends r outer .threw m₁)
      (transfer : r.transfer = .ret value explicit) :
      Move p m [.cleanupThrew r.range] { m₁ with returned := none }
  | abandon {r outer m₁} (ends : m.Ends r outer .threw m₁)
      (transfer : r.transfer = .pop ∨ ∃ exit depth remaining, r.transfer = .exitLoop exit depth remaining) :
      Move p m [.cleanupThrew r.range] m₁

theorem execute_move {p : Program} {m m' : Machine} {es : List Event} (runs : m.Runs)
    (h : m.execute p = ⟨es, .ok m'⟩) : Move p m es m' := by
  unfold execute at h
  split at h
  · exact (fail_eq.1 h).elim
  · rename_i f hf
    split at h
    · rename_i hi
      obtain ⟨_, rfl, h'⟩ := note_eq.1 h
      exact .fallOff runs hf hi (leaveFunction_carries none false rfl h')
    · rename_i i hi
      obtain ⟨_, rfl, h'⟩ := note_eq.1 h
      exact .execute runs hf hi (perform_performs h')

theorem abandon_move {p : Program} {m m' : Machine} {es : List Event} {r : Region} {outer : List Region}
    (ends : m.Ends r outer .threw (m.escaped r outer)) (h : m.abandon r outer = ⟨es, .ok m'⟩) :
    Move p m es m' := by
  obtain ⟨_, rfl, h'⟩ := note_eq.1 h
  split at h'
  · rename_i transfer
    exact .abandonSearch ends transfer (unwind_carries .empty [] (handler?_nil _) rfl h')
  · rename_i transfer
    obtain ⟨rfl, rfl⟩ := done_eq.1 h'
    exact .abandonReturn ends transfer
  · rename_i transfer
    obtain ⟨rfl, rfl⟩ := done_eq.1 h'
    exact .abandon ends (.inl transfer)
  · rename_i transfer
    obtain ⟨rfl, rfl⟩ := done_eq.1 h'
    exact .abandon ends (.inr ⟨_, _, _, transfer⟩)

/-- Every transition that ends without a fault is a move. -/
theorem advance_move {p : Program} {m m' : Machine} {es : List Event}
    (h : m.advance p = ⟨es, .ok m'⟩) : Move p m es m' := by
  unfold advance at h
  split at h
  · rename_i hr
    split at h
    · rename_i active
      have hn : m.available = m.stack.depth := by simp [available, floor, hr]
      exact .search active (by simp [hr]) (unwind_carries .empty [] (handler?_nil _) hn h)
    · rename_i active
      exact execute_move ⟨by simpa using active, by simp [hr]⟩ h
  · rename_i r outer hr
    split at h
    · rename_i active
      split at h
      · rename_i depth
        exact abandon_move (.threw hr active depth) h
      · rename_i depth
        have room : ∀ r' outer', m.regions = r' :: outer' → r'.floor < m.stack.depth := by
          intro r' outer' h'
          rw [hr] at h'
          cases h'
          omega
        exact .search active room (unwind_carries .empty [] (handler?_nil _) (by simp [available, floor, hr]) h)
    · rename_i active
      have settled : m.pending.isActive = false := by simpa using active
      split at h
      · rename_i hend
        unfold complete at h
        split at h
        · exact (fail_eq.1 h).elim
        · rename_i depth
          exact .complete (.completed hr settled hend.1 hend.2 (by omega)) (resume_carries h)
      · rename_i hend
        have inside : ∀ r' outer', m.regions = r' :: outer' → ¬(m.frame = r'.frame ∧ r'.range.stop ≤ m.pc) := by
          intro r' outer' h'
          rw [hr] at h'
          cases h'
          exact hend
        exact execute_move ⟨settled, inside⟩ h

end Machine

end SlotVM
