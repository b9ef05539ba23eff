/-
The stacks of runs. A machine pushes frames without names and takes frames off, a `Bind` binds a name, and a
handler finds the try frame that was taken off back on the stack. `Reachable.scoped`: so every stack of a run
is built in these ways, by the bindings that the program's `Bind` instructions make.
-/
import SlotVM.Proofs.Stack.Names
import SlotVM.Proofs.Machine.Reach

namespace SlotVM

/-- The `Bind` instructions of a program bind names as `allowed`. -/
def Program.Binds (p : Program) (allowed : String → Nat → Prop) : Prop :=
  ∀ ⦃function pc name ref⦄, p.At function pc (.bind name ref) → allowed name ref

/-- The scope of a try frame that was taken off a built stack. -/
def Scope.TakenOff (allowed : String → Nat → Prop) (scope : Scope) : Prop :=
  ∃ u t f, Stack.Built allowed u ∧ u.pop? = some (f, t) ∧ f.isTry = true ∧ f.scope = scope

/-- The scope that a handler gets back, if a transfer still has clauses to ask, is that of its try frame. -/
def Transfer.Scoped (allowed : String → Nat → Prop) : Transfer → Prop
  | .unwind scope catches => catches = [] ∨ scope.TakenOff allowed
  | .pop | .exitLoop _ _ _ | .ret _ _ => True

theorem Transfer.scoped_empty {allowed : String → Nat → Prop} : (Transfer.unwind .empty []).Scoped allowed := .inl rfl

theorem Transfer.Scoped.past {allowed : String → Nat → Prop} {t : Transfer} {s rest : Stack} {f : Frame}
    (h : t.Scoped allowed) (built : Stack.Built allowed s) (top : s = rest.push f) : (t.past f).Scoped allowed := by
  cases t with
  | unwind scope catches =>
    cases hf : f.kind with
    | attempt catches' cleanup =>
      have taken : f.scope.TakenOff allowed :=
        ⟨s, rest, f, built, by rw [top, Stack.pop?_push], by rw [Frame.isTry, hf], rfl⟩
      simp only [Transfer.past, hf]
      exact .inr taken
    | _ =>
      simp only [Transfer.past, hf]
      exact .inl rfl
  | exitLoop exit depth remaining => cases remaining <;> cases hf : f.kind <;> simp [Transfer.past, hf, Scoped]
  | pop | ret => exact h

namespace Machine

/-- The stack of the machine is built by allowed bindings, and so is what its finally blocks keep for later. -/
structure Scoped (allowed : String → Nat → Prop) (m : Machine) : Prop where
  stack : Stack.Built allowed m.stack
  regions : ∀ r ∈ m.regions, r.transfer.Scoped allowed

variable {p : Program} {allowed : String → Nat → Prop} {m m' : Machine} {es : List Event}

namespace Scoped

theorem of_eq (h : m.Scoped allowed) (stack : m'.stack = m.stack) (regions : m'.regions = m.regions) :
    m'.Scoped allowed := ⟨stack ▸ h.stack, regions ▸ h.regions⟩

theorem pop (h : m.Scoped allowed) {f : Frame} {rest : Stack} (top : m.stack = rest.push f) :
    { m with stack := rest }.Scoped allowed :=
  ⟨h.stack.pop (by rw [top, Stack.pop?_push]), h.regions⟩

theorem push (h : m.Scoped allowed) (kind : FrameKind) : (m.pushFrame kind).Scoped allowed :=
  ⟨h.stack.push kind, h.regions⟩

theorem entered (h : m.Scoped allowed) (range : Span) {t : Transfer} (ht : t.Scoped allowed) :
    (m.entered range t).Scoped allowed :=
  ⟨h.stack, List.forall_mem_cons.2 ⟨ht, h.regions⟩⟩

theorem handling (h : m.Scoped allowed) {scope : Scope} (taken : scope.TakenOff allowed) (clause : CatchClause)
    (error : Value) : (m.handling scope clause error).Scoped allowed := by
  obtain ⟨u, t, f, before, top, isTry, rfl⟩ := taken
  exact ⟨h.stack.pushBack before top isTry, h.regions⟩

end Scoped

theorem Carries.scoped {t : Transfer} (go : m.Carries t es m') (h : m.Scoped allowed) (ht : t.Scoped allowed) :
    m'.Scoped allowed := by
  induction go with
  | popped => exact h.of_eq rfl rfl
  | caught found =>
    -- a handler was found among the clauses, so there are some
    rcases ht with rfl | taken
    · rw [handler?_nil] at found; cases found
    · exact h.handling taken _ _
  | uncaught => exact h
  | cleanup seeks room top kind => exact (h.pop top).entered _ (ht.past h.stack top)
  | pass seeks room top passes go ih => exact ih (h.pop top) (ht.past h.stack top)
  | abort seeks room top kind go ih =>
    -- the search goes on in the caller, without clauses
    exact ih ((h.pop top).of_eq (goBack_stack _ _) (goBack_regions _ _)) (.inl rfl)
  | left room top | returned room top | ended room top => exact (h.pop top).of_eq rfl rfl

theorem Performs.scoped {i : Instruction} (go : m.Performs p i es m') (h : m.Scoped allowed) (binds : p.Binds allowed)
    (at_ : p.At m.function m.pc i) : m'.Scoped allowed := by
  cases go with
  | assign | setField | setIndex | setConstant | raise | jump | nop | throw => exact h.of_eq rfl rfl
  | call | push => exact (h.push _).of_eq rfl rfl
  | bind hb => exact ⟨h.stack.bind (binds at_) hb, h.regions⟩
  | pop room top => exact (h.pop top).of_eq rfl rfl
  | popCleanup room top => exact (h.pop top).entered _ trivial
  | branch | branchConstant => split <;> exact h.of_eq rfl rfl
  | ret hv go => exact go.scoped (h.of_eq rfl rfl) trivial
  | exitLoop go => exact go.scoped h trivial

theorem Ends.scoped {r : Region} {outer : List Region} {exit : RegionExit} (ends : m.Ends r outer exit m')
    (h : m.Scoped allowed) : m'.Scoped allowed ∧ r.transfer.Scoped allowed := by
  have regions := h.regions
  rw [ends.regions] at regions
  obtain ⟨hr, houter⟩ := List.forall_mem_cons.1 regions
  exact ⟨⟨ends.stack_eq ▸ h.stack, ends.regions_eq ▸ houter⟩, hr⟩

/-- Every transition builds its stack from the one before. -/
theorem Move.scoped (move : m.Move p es m') (h : m.Scoped allowed) (binds : p.Binds allowed) : m'.Scoped allowed := by
  cases move with
  | execute runs function code go => exact go.scoped h binds ⟨_, function, code⟩
  | fallOff runs function code go => exact go.scoped (h.of_eq rfl rfl) trivial
  | search active room go => exact go.scoped h Transfer.scoped_empty
  | complete ends go => exact go.scoped (ends.scoped h).1 (ends.scoped h).2
  | abandonSearch ends transfer go => exact go.scoped (ends.scoped h).1 Transfer.scoped_empty
  | abandonReturn ends transfer => exact (ends.scoped h).1.of_eq rfl rfl
  | abandon ends transfer => exact (ends.scoped h).1

theorem scoped_ready (p : Program) : (ready p).Scoped allowed :=
  ⟨.empty, fun _ hr => by cases hr⟩

theorem Scoped.started (h : m.Scoped allowed) (args : List String) : (m.started args).Scoped allowed :=
  ⟨h.stack.push _, fun _ hr => by cases hr⟩

/-- The stack of every reachable machine is built by bindings that the program makes. -/
theorem Reachable.scoped (h : Reachable p m) (binds : p.Binds allowed) : m.Scoped allowed := by
  induction h with
  | ready => exact scoped_ready p
  | start h start ih =>
    obtain ⟨-, rfl⟩ := start_ok start
    exact ih.started _
  | advance h running move ih => exact (advance_move move).scoped ih binds

/-! ## Names -/

/-- Names are owned by one frame each, on every stack that pushes, pops, binds and catches lead to; every stack
of a run is one. -/
theorem names_owned {s : Stack} {allowed : String → Nat → Prop}
    (h : Stack.Built allowed s ∨ ∃ p m, Reachable p m ∧ m.stack = s) : NamesOwned s := by
  rcases h with built | ⟨p, m, reach, rfl⟩
  · exact built.namesOwned
  · have built : m.Scoped fun _ _ => True := reach.scoped fun _ _ _ _ _ => trivial
    exact built.stack.namesOwned

/-- A program that binds one name outside of a try construct and one in its handler. -/
def bindInHandler : Program :=
  ⟨#[⟨"main", 1, #[.assign 0 (.integer 7), .bind "x" 0, .pushScope, .pushTry [⟨.any, 5⟩] none, .throw 0,
    .bind "y" 0]⟩]⟩

/-- The try frame is back on top of the stack and binds neither name. -/
theorem names_owned_handler : ∃ m, Reachable bindInHandler m ∧
    m.stack.kinds.head? = some (.attempt [] none) ∧ m.stack.resolve? "x" = some 0 ∧
    (m.stack.get? 1).map (·.scope.contains "y") = some true ∧ NamesOwned m.stack := by
  have started : Reachable bindInHandler ((ready bindInHandler).started []) := .start .ready rfl
  have pushed := (((started.advance rfl rfl).advance rfl rfl).advance rfl rfl).advance rfl rfl
  have handled := ((pushed.advance rfl rfl).advance rfl rfl).advance rfl rfl
  exact ⟨_, handled, rfl, rfl, rfl, @names_owned _ (fun _ _ => True) (.inr ⟨_, _, handled, rfl⟩)⟩

end Machine

end SlotVM
