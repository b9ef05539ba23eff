/-
What a machine reports while it runs, and the transitions that report it.
-/
import SlotVM.Machine.Basic
import SlotVM.Value.Render

namespace SlotVM

/-! ## Outcomes -/

/-- How a run ended. -/
inductive Outcome
  | returned (value : Option Value)
  | threw (error : Value)
deriving Inhabited

/-- The text of an outcome in run reports. -/
def Outcome.listing : Outcome → String
  | .returned value => s!"Returned({optionListing (value.map Value.listing)})"
  | .threw error => s!"Threw({error.listing})"

/-! ## Events -/

/-- How important an event is. -/
inductive Level
  | info
  | debug
  | trace
deriving DecidableEq, Repr, Inhabited

/-- The name of a level. -/
def Level.name : Level → String
  | .info => "INFO"
  | .debug => "DEBUG"
  | .trace => "TRACE"

/-- Something that happened. -/
inductive Event
  | assembled (functions : Nat)
  | started
  | executing (function pc : Nat) (instruction : Instruction)
  /-- The end of a function was reached without a return. -/
  | fellOff (function : Nat)
  | raised (function pc : Nat) (failure : Raised)
  /-- An error was thrown; the slots are those at that time. -/
  | thrown (error : Value) (slots : Slots)
  | caught (error : Value) (clause : CatchClause)
  | cleanupBegan (function : Nat) (range : Span) (depth : Nat)
  | cleanupThrew (range : Span)
  | loopLeft (exit : LoopExit) (depth target : Nat)
  | called (function depth : Nat)
  | returned (callee caller pc : Nat)
  | entryReturned (value : Option Value)
  | finished (outcome : Outcome)
deriving Inhabited

namespace Event

/-- The level of an event. -/
def level : Event → Level
  | .started | .finished _ => .info
  | .executing _ _ _ | .fellOff _ => .trace
  | _ => .debug

/-- The message for an event in a run of `p`. -/
def message (p : Program) : Event → String
  | .assembled functions => s!"Assembled {functions} functions"
  | .started => s!"Starting interpretation of {name Program.entryId}"
  | .executing function pc instruction =>
    s!"Executing {name function}:{pc} {instruction.listing}"
  | .fellOff function => s!"Falling off the end of {name function}"
  | .raised function pc failure => s!"Raised at {name function}:{pc}: {failure.message}"
  | .thrown error slots => s!"Throwing {error.render slots}"
  | .caught error clause =>
    s!"Caught {error.display} by `{clause.type.name}` handler at {clause.handler}"
  | .cleanupBegan _ range depth => s!"Running finally block {range.text} at depth {depth}"
  | .cleanupThrew range => s!"Finally block {range.text} threw"
  | .loopLeft exit depth target => s!"{exit.name} {depth} resumes at {target}"
  | .called function depth => s!"Calling {name function} (@{function}) at depth {depth}"
  | .returned callee caller pc => s!"Returned from @{callee} to @{caller} at {pc}"
  | .entryReturned value =>
    s!"Entry function returned: {optionListing (value.map Value.listing)}"
  | .finished outcome => s!"Program finished: {outcome.listing}"
where
  /-- The name of a function. -/
  name (id : Nat) : String := (p.functions[id]?.map FunctionDef.name).getD ""

end Event

/-! ## Transitions -/

/-- A transition of a machine: what happened in it, and the machine afterwards or the fault that
ended the run. -/
structure Transition where
  events : List Event
  result : Except Fault Machine
deriving Inhabited

namespace Transition

/-- Ends a transition. -/
def done (m : Machine) : Transition := ⟨[], .ok m⟩

/-- Ends a transition, and the run. -/
def fail (f : Fault) : Transition := ⟨[], .error f⟩

/-- Puts an event before those of a transition. -/
def note (e : Event) (t : Transition) : Transition := { t with events := e :: t.events }

end Transition

end SlotVM
