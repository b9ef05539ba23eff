/-
Running a machine: starting the entry function, taking steps, and the outcome in the end. A step is
what happens between two moments at which no finally block is running. Programs need not end, so
every loop has a limit on its transitions.
-/
import SlotVM.Machine.Advance

namespace SlotVM

namespace Machine

/-! ## Begin and end -/

/-- A machine for a program that has not been started. -/
def ready (p : Program) : Machine where
  slots := .empty p.slotCount
  constants := .empty
  stack := .empty
  function := Program.entryId
  frame := 0
  pc := 0
  returned := none
  pending := .none
  regions := []

/-- The machine at the first instruction of the entry function, whose argument is an array of the given
strings in new slots. Slots and constants are kept from earlier runs. -/
def started (m : Machine) (args : List String) : Machine :=
  { m with
    slots := args.foldl (fun s a => s.allocate (.string a)) m.slots
    stack := m.stack.push <| .ofKind <| .call
      { function := Program.entryId,
        args := [.array (List.range' m.slots.nextId args.length)],
        returnTarget := none, caller := none }
    function := Program.entryId
    frame := m.stack.depth
    pc := 0
    returned := none
    pending := .none
    regions := [] }

/-- Starts the entry function, unless a run is under way. -/
def start (m : Machine) (args : List String) : Except Cause Machine :=
  if m.halted then .ok (m.started args) else .error .alreadyRunning

/-- How the run ended. -/
def outcome (m : Machine) : Except Cause Outcome :=
  if m.halted then
    .ok <| match m.pending with
      | .active error => .threw error
      | _ => .returned m.returned
  else .error .stillRunning

/-! ## Loops -/

/-- Takes transitions until `stop` holds, at most `limit` of them. What happens is passed on to
`observe`. -/
def runUntil {σ : Type} (p : Program) (observe : σ → List Event → σ) (stop : Machine → Bool)
    (m : Machine) (log : σ) : (limit : Nat) → σ × Except Fault Machine
  | 0 => (log, .ok m)
  | limit + 1 =>
    if stop m then (log, .ok m)
    else
      let t := m.advance p
      match t.result with
      | .ok m => m.runUntil p observe stop (observe log t.events) limit
      | .error f => (observe log t.events, .error f)

/-- Keeps nothing of what happens. -/
def ignore (_ : Unit) (_ : List Event) : Unit := ()

/-- Keeps everything that happens. -/
def record (log : Array Event) (events : List Event) : Array Event := log ++ events

/-- Whether no finally block is running. -/
def settled (m : Machine) : Bool := m.regions.isEmpty

/-- One step: a transition, and then those of the finally blocks that it began. A run that is over
stays as it is. -/
def step (p : Program) (limit : Nat) (m : Machine) : Except Fault Machine :=
  if m.halted then .ok m
  else match (m.advance p).result with
    | .ok m => (m.runUntil p ignore settled () limit).2
    | .error f => .error f

/-- Takes steps until the run is over, at most `n` of them, and counts them. -/
def steps (p : Program) (limit : Nat) : (n : Nat) → (taken : Nat) → Machine →
    Nat × Except Fault Machine
  | 0, taken, m => (taken, .ok m)
  | n + 1, taken, m =>
    match m.step p limit with
    | .error f => (taken + 1, .error f)
    | .ok m => if m.halted then (taken + 1, .ok m) else m.steps p limit n (taken + 1)

/-- The machine after each of the steps until the run is over, at most `n`, and the fault that ended
it early. -/
def trace (p : Program) (limit : Nat) : (n : Nat) → Machine → List Machine × Option Fault
  | 0, _ => ([], none)
  | n + 1, m =>
    match m.step p limit with
    | .error f => ([], some f)
    | .ok m =>
      if m.halted then ([m], none)
      else
        let (rest, fault) := m.trace p limit n
        (m :: rest, fault)

/-- Runs from the start of the entry function to the outcome. -/
def run {σ : Type} (p : Program) (observe : σ → List Event → σ) (limit : Nat) (log : σ)
    (m : Machine) (args : List String) : σ × Except Fault (Machine × Outcome) :=
  match m.start args with
  | .error c => (log, .error ⟨[], c, m⟩)
  | .ok m =>
    match m.runUntil p observe halted (observe log [.started]) limit with
    | (log, .error f) => (log, .error f)
    | (log, .ok m) =>
      match m.outcome with
      | .error c => (log, .error ⟨[], c, m⟩)
      | .ok outcome => (observe log [.finished outcome], .ok (m, outcome))

end Machine

end SlotVM
