/-
Validation is sound. In every machine that a valid program comes to, every place that is kept lies in the
function that it is meant for, and every function that is named exists. So no transition faults for want
of a function, and a finally block never falls off the end of its own function.
-/
import SlotVM.Proofs.Control.CallChain
import SlotVM.Proofs.Machine.Holding

namespace SlotVM

open Transition

variable {p : Program}

/-! ## Functions that values name -/

/-- A function value names a function of the program. -/
def Value.Within (p : Program) (v : Value) : Prop := ∀ c, v.function? = some c → c.function < p.functions.size

/-- The function values that a valid program makes name its own functions. -/
theorem Program.Valid.makes (valid : p.Valid) : p.Makes (Value.Within p) where
  primitive v hv c hc := by
    cases v with
    | function d => exact False.elim hv
    | _ => cases hc
  literal := by
    intro function pc target source v at_ hv c hc
    cases source <;> cases hv <;> cases hc
    exact valid.function_lt at_
  applied := by
    intro function pc target ref args c _ hc d hd
    cases hd
    exact hc c rfl

/-! ## Transitions without such faults -/

/-- A transition does not fault for want of a function, and falls off the end of none. -/
structure Transition.Stays (t : Transition) : Prop where
  found : ∀ f, t.result = .error f → ∀ id, f.cause ≠ .noFunction id
  events : ∀ function, .fellOff function ∉ t.events

namespace Transition

theorem stays_done (m : Machine) : (done m).Stays := by
  constructor
  · intro f hf; cases hf
  · intro function hf; cases hf

theorem stays_fail {f : Fault} (h : ∀ id, f.cause ≠ .noFunction id) : (fail f).Stays := by
  constructor
  · intro g hg; cases hg; exact h
  · intro function hf; cases hf

theorem Stays.note {e : Event} {t : Transition} (h : t.Stays) (he : ∀ function, e ≠ .fellOff function) :
    (note e t).Stays where
  found := h.found
  events function hf := by
    rcases List.mem_cons.1 hf with hf | hf
    · exact he function hf.symm
    · exact h.events function hf

end Transition

namespace Machine

variable {m : Machine}

theorem enter_stays (m : Machine) (range : Span) (t : Transfer) : (m.enter range t).Stays :=
  (stays_done _).note nofun

theorem handle_stays (m : Machine) (scope : Scope) (clause : CatchClause) (error : Value) :
    (m.handle scope clause error).Stays :=
  (stays_done _).note nofun

theorem unwind_stays : ∀ (n : Nat) (m : Machine), (m.unwind n).Stays
  | 0, m => stays_done m
  | n + 1, m => by
    unfold unwind
    split
    · exact stays_done m
    · dsimp only
      split
      · exact enter_stays ..
      · split
        · exact handle_stays ..
        · exact unwind_stays n _
      all_goals exact unwind_stays n _

theorem exitLoop_stays (m : Machine) (exit : LoopExit) (depth remaining n : Nat) :
    (m.exitLoop exit depth remaining n).Stays := by
  induction n generalizing m remaining with
  | zero =>
    refine stays_fail ?_
    intro id h
    cases h
  | succ n ih =>
    unfold exitLoop
    split
    · refine stays_fail ?_
      intro id h
      cases h
    · split
      · refine stays_fail ?_
        intro id h
        cases h
      · split
        · cases remaining with
          | zero =>
            refine (stays_done _).note ?_
            intro function h
            cases h
          | succ remaining => exact ih ..
        · exact enter_stays ..
        all_goals exact ih ..

theorem deliver_stays (m : Machine) (call : CallFrame) (value : Option Value) : (m.deliver call value).Stays := by
  unfold deliver
  split <;> exact (stays_done _).note nofun

theorem leaveFunction_stays (value : Option Value) (explicit : Bool) : ∀ (n : Nat) (m : Machine),
    (m.leaveFunction value explicit n).Stays
  | 0, m => by cases explicit <;> exact stays_fail nofun
  | n + 1, m => by
    unfold leaveFunction
    split
    · cases explicit <;> exact stays_fail nofun
    · dsimp only
      split
      · exact deliver_stays ..
      · exact enter_stays ..
      all_goals exact leaveFunction_stays value explicit n _

theorem resume_stays (m : Machine) (t : Transfer) : (m.resume t).Stays := by
  unfold resume
  split
  · exact stays_done _
  · exact exitLoop_stays ..
  · exact leaveFunction_stays ..
  · split
    · exact handle_stays ..
    · exact unwind_stays ..

theorem complete_stays (m : Machine) (r : Region) (outer : List Region) : (m.complete r outer).Stays := by
  unfold complete
  split
  · exact stays_fail nofun
  · exact resume_stays ..

theorem abandon_stays (m : Machine) (r : Region) (outer : List Region) : (m.abandon r outer).Stays := by
  refine Stays.note ?_ nofun
  split
  · exact unwind_stays ..
  all_goals exact stays_done _

theorem popFrame_stays (m : Machine) : m.popFrame.Stays := by
  unfold popFrame
  split
  · exact stays_fail nofun
  · split
    · exact stays_fail nofun
    · dsimp only
      split
      · exact enter_stays ..
      · exact stays_done _

theorem conclude_stays {α : Type} {Q : α → Prop} {r : Except Failure α} (h : Yields Q r)
    (change : Machine → α → Machine) : (m.conclude r change).Stays := by
  unfold conclude
  split
  · exact stays_done _
  · refine Stays.note (Stays.note (stays_done _) ?_) ?_
    · exact nofun
    · exact nofun
  · exact stays_fail (h.of_fault rfl)

theorem withResult_stays {α : Type} {Q : α → Prop} {r : Except Cause α} {k : Machine → α → Transition}
    (h : Yields Q (ofCause r)) (hk : ∀ a, Q a → (k m a).Stays) : (m.withResult r k).Stays := by
  unfold withResult
  split
  · exact hk _ h
  · exact stays_fail (h.of_fault rfl)

theorem condition_yields (m : Machine) (ref : Nat) : Yields (fun _ => True) (ofCause (m.condition ref)) := by
  refine (read_yields m.slots ref).bindCause fun v _ => ?_
  split
  · trivial
  · exact nofun

theorem mapM_read_yields (m : Machine) (refs : List Nat) :
    Yields (fun _ => True) (ofCause (refs.mapM m.slots.read)) := by
  induction refs with
  | nil => trivial
  | cons ref refs ih =>
    rw [List.mapM_cons]
    refine (read_yields m.slots ref).bindCause fun v _ => ?_
    exact ih.bindCause fun vs _ => trivial

theorem bind_yields (s : Stack) (name : String) (ref : Nat) : Yields (fun _ => True) (ofCause (s.bind name ref)) := by
  unfold Stack.bind
  split
  · trivial
  · exact nofun

/-- The function that a function value of a valid program names exists. -/
theorem callee_yields (h : m.Holding (Value.Within p)) (ref : Nat) (args : List Nat) :
    Yields (fun _ => True) (ofCause (m.callee p ref args)) := by
  refine (Yields.read (h.slots ref)).bindCause fun v hv => ?_
  split
  · exact nofun
  · rename_i closure hc
    rw [Array.getElem?_eq_getElem (hv closure hc)]
    refine (mapM_read_yields m _).bindCause fun values _ => ?_
    split
    · trivial
    · exact nofun

theorem perform_stays (valid : p.Valid) (h : m.Holding (Value.Within p)) {i : Instruction}
    (at_ : p.At m.function m.pc i) : (m.perform p i).Stays := by
  unfold perform
  cases i with
  | assign target source => exact conclude_stays (h.evaluate valid.makes at_) _
  | setField ref name value => exact conclude_stays (h.fieldStore ref name value) _
  | setIndex ref index value => exact conclude_stays (h.indexStore ref index value) _
  | setConstant id value => exact conclude_stays (h.constantStore id value) _
  | call target ref args =>
    refine withResult_stays (callee_yields h ref args) fun (function, values) _ => ?_
    exact (stays_done _).note nofun
  | bind name ref => exact withResult_stays (bind_yields ..) fun _ _ => stays_done _
  | popFrame => exact popFrame_stays m
  | branch on ref target => exact withResult_stays (condition_yields m ref) fun _ _ => stays_done _
  | ret ref => exact withResult_stays (read_yields m.slots ref) fun v _ => leaveFunction_stays ..
  | throw ref => exact withResult_stays (read_yields m.slots ref) fun v _ => (stays_done _).note nofun
  | exitLoop exit depth => exact exitLoop_stays ..
  | pushScope | pushLoop | pushTry | jump | branchConstant | nop => exact stays_done _

/-- Executing an instruction of a valid program. -/
theorem execute_stays (valid : p.Valid) (h : m.Holding (Value.Within p)) {i : Instruction}
    (at_ : p.At m.function m.pc i) : (m.execute p).Stays := by
  have hp := perform_stays valid h at_
  obtain ⟨f, hf, hi⟩ := at_
  simp only [execute, hf, hi]
  exact hp.note nofun

/-- A transition that does not execute an instruction neither faults for want of a function nor falls off
the end of one. -/
theorem advance_stays_or_executes (m : Machine) (p : Program) :
    (m.advance p).Stays ∨ m.Runs ∧ m.advance p = m.execute p := by
  unfold advance
  split
  · rename_i hr
    split
    · exact .inl (unwind_stays ..)
    · rename_i active
      exact .inr ⟨⟨by simpa using active, by simp [hr]⟩, rfl⟩
  · rename_i r outer hr
    split
    · split
      · exact .inl (abandon_stays ..)
      · exact .inl (unwind_stays ..)
    · rename_i active
      split
      · exact .inl (complete_stays ..)
      · rename_i hend
        refine .inr ⟨⟨by simpa using active, ?_⟩, rfl⟩
        intro q qs hq
        rw [hr] at hq
        cases hq
        exact hend

theorem advance_found (valid : p.Valid) (wf : m.WellFormed p) (h : m.Holding (Value.Within p)) {f : Fault}
    (hf : (m.advance p).result = .error f) (id : Nat) : f.cause ≠ .noFunction id := by
  rcases advance_stays_or_executes m p with stays | ⟨-, heq⟩
  · exact stays.found f hf id
  · obtain ⟨g, hg, -⟩ := wf.pc
    cases hi : g.code[m.pc]? with
    | some i => exact (execute_stays valid h ⟨g, hg, hi⟩).found f (heq ▸ hf) id
    | none =>
      rw [heq] at hf
      simp only [execute, hg, hi] at hf
      exact (leaveFunction_stays none false _ _).found f hf id

/-- The function that a finally block belongs to is running only if it is the one of the innermost block. -/
theorem WellFormed.innermost (wf : m.WellFormed p) {r q : Region} {outer : List Region} (hr : r ∈ m.regions)
    (regions : m.regions = q :: outer) (frame : m.frame = r.frame) : m.frame = q.frame ∧ m.function = q.function := by
  have hq := wf.regions q (by simp [regions])
  obtain ⟨c, hc, hcf⟩ := (wf.regions r hr).top
  obtain ⟨d, hd, hdf⟩ := hq.top
  have hle : r.floor ≤ q.floor := by
    have := wf.floor_le r hr
    rwa [floor, regions] at this
  obtain ⟨j, d', hd', hrq, -⟩ := topCall?_of_suffix (bottom_suffix_bottom hle m.stack.kinds) hc
  rw [hd] at hd'; cases hd'
  obtain ⟨k, e, he, hqm, same⟩ := topCall?_of_suffix (bottom_suffix q.floor m.stack.kinds) hd
  obtain ⟨e', he', hef⟩ := wf.top fun hnil => by rw [hnil] at he; cases he
  rw [he] at he'; cases he'
  have hframe : q.frame = m.frame := by omega
  exact ⟨hframe.symm, by rw [← hef, ← same hframe, hdf]⟩

theorem advance_inside (valid : p.Valid) (wf : m.WellFormed p) (h : m.Holding (Value.Within p)) {r : Region}
    (hr : r ∈ m.regions) (frame : m.frame = r.frame) : (m.advance p).Stays := by
  rcases advance_stays_or_executes m p with stays | ⟨runs, heq⟩
  · exact stays
  · cases hq : m.regions with
    | nil => rw [hq] at hr; cases hr
    | cons q outer =>
      obtain ⟨hframe, hfunction⟩ := wf.innermost hr hq frame
      -- the block has not ended, so its range has an instruction here
      obtain ⟨g, hg, hstop⟩ := (wf.regions q (by simp [hq])).range.stop
      have hpc : m.pc < q.range.stop := by
        have := runs.inside q outer hq
        simp only [hframe, true_and] at this
        omega
      rw [heq]
      exact execute_stays valid h ⟨g, by rw [hfunction]; exact hg, Array.getElem?_eq_getElem (by omega)⟩

/-! ## Soundness -/

/-- Every place and every function that a machine names is one of the program. -/
structure Validated (m : Machine) (p : Program) : Prop where
  pc : p.Target m.function m.pc
  /-- The places that a frame names lie in the function of the nearest function frame below it. -/
  frames : ∀ i f, m.stack.get? i = some f → f.kind.call? = none →
    ∃ k c, m.stack.callBelow? i = some (k, c) ∧ f.kind.Within p c.function
  calls : ∀ i c, m.stack.call? i = some c → c.function < p.functions.size ∧
    ∀ k, c.caller = some k → p.Target k.function k.pc
  regions : ∀ r ∈ m.regions, r.range.Within p r.function ∧ p.Target r.function r.resume
  values : m.Holding (Value.Within p)
  /-- Neither a step nor a whole run faults because a function does not exist. -/
  step_found : ∀ limit f, m.step p limit = .error f → ∀ id, f.cause ≠ .noFunction id
  run_found : ∀ (σ : Type) (observe : σ → List Event → σ) limit log args f,
    (m.run p observe limit log args).2 = .error f → ∀ id, f.cause ≠ .noFunction id
  /-- No finally block falls off the end of its own function. -/
  inside : ∀ r ∈ m.regions, m.frame = r.frame → ∀ function, .fellOff function ∉ (m.advance p).events

theorem Reachable.holding_within (h : Reachable p m) (valid : p.Valid) : m.Holding (Value.Within p) :=
  h.holding valid.makes fun _ => nofun

theorem step_found (valid : p.Valid) (h : Reachable p m) {limit : Nat} {f : Fault} (hf : m.step p limit = .error f)
    (id : Nat) : f.cause ≠ .noFunction id := by
  obtain ⟨x, hx, -, hadv⟩ := step_fault valid h hf
  exact advance_found valid (hx.wellFormed valid) (hx.holding_within valid) hadv id

theorem run_found (valid : p.Valid) (h : Reachable p m) {σ : Type} {observe : σ → List Event → σ} {limit : Nat}
    {log : σ} {args : List String} {f : Fault} (hf : (m.run p observe limit log args).2 = .error f) (id : Nat) :
    f.cause ≠ .noFunction id := by
  unfold run at hf
  split at hf
  · rename_i c hc
    cases hf
    unfold start at hc
    split at hc <;> cases hc
    exact nofun
  · rename_i m₀ hstart
    split at hf
    · rename_i hrun
      cases hf
      have hrun := congrArg Prod.snd hrun
      obtain ⟨es, x, looped, -, hadv⟩ := runUntil_fault (fun x _ hx => hx) (h.start hstart) hrun
      have hx := looped.reachable (h.start hstart)
      exact advance_found valid (hx.wellFormed valid) (hx.holding_within valid) hadv id
    · split at hf
      · rename_i c hc
        cases hf
        unfold outcome at hc
        split at hc <;> cases hc
        exact nofun
      · cases hf

/-- Validation is sound for every machine that starts and transitions of a valid program lead to. -/
theorem Reachable.validated (h : Reachable p m) (valid : p.Valid) : m.Validated p := by
  have wf := h.wellFormed valid
  have values := h.holding_within valid
  constructor
  · exact wf.pc
  · intro i f hf hk
    have hr := wf.stacked.rests_get? hf
    rw [Stack.callBelow?_eq_topCall? (Nat.le_of_lt (Stack.lt_depth_of_get? hf))]
    cases hb : topCall? (bottom i m.stack.kinds) with
    | none => simp [FrameKind.Rests, hk, hb] at hr
    | some e => exact ⟨e.1, e.2, rfl, by simpa [FrameKind.Rests, hk, hb] using hr⟩
  · intro i c hc
    rcases wf.stacked.call? hc with ⟨entry, -⟩ | ⟨k, d, -, called⟩
    · refine ⟨entry.function ▸ valid.entry, ?_⟩
      intro k hk
      rw [entry.caller] at hk
      cases hk
    · obtain ⟨g, hg, -⟩ := called.args
      obtain ⟨pc, target, ref, args, hcaller, at_, -⟩ := called.caller
      refine ⟨(Array.getElem?_eq_some_iff.1 hg).1, ?_⟩
      intro k hk
      rw [hcaller] at hk
      cases hk
      exact at_.target
  · intro r hr
    exact ⟨(wf.regions r hr).range, (wf.regions r hr).resume⟩
  · exact values
  · intro limit f hf
    exact step_found valid h hf
  · intro σ observe limit log args f hf
    exact run_found valid h hf
  · intro r hr frame
    exact (advance_inside valid wf values hr frame).events

/-- A program whose finally block runs a loop in a function that has a handler as well. -/
def loopInCleanup : Program :=
  ⟨#[⟨"main", 1, #[.assign 0 (.function 1), .pushTry [⟨.any, 6⟩] (some ⟨3, 5⟩), .popFrame, .pushLoop 4 5,
    .exitLoop .leave 0, .nop]⟩, ⟨"f", 0, #[]⟩]⟩

/-- In the loop, the finally block's own function is running and a slot holds a function value. -/
theorem validated_loopInCleanup : ∃ m, loopInCleanup.Valid ∧ Reachable loopInCleanup m ∧
    m.stack.top? = some (.ofKind (.loop 4 5)) ∧ m.slots.get? 0 = some (.function ⟨1, []⟩) ∧
    (∃ r ∈ m.regions, m.frame = r.frame) ∧ m.Validated loopInCleanup := by
  have valid : loopInCleanup.Valid := by decide
  have started : Reachable loopInCleanup ((ready loopInCleanup).started []) := .start .ready rfl
  have pushed := (started.advance rfl rfl).advance rfl rfl
  have looping := (pushed.advance rfl rfl).advance rfl rfl
  exact ⟨_, valid, looping, rfl, rfl, ⟨_, List.mem_cons_self .., rfl⟩, looping.validated valid⟩

end Machine

end SlotVM
