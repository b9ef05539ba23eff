/-
The command line: which program file to run, with which arguments, and what is printed in the end.
-/
import SlotVM.Assembly.Basic
import SlotVM.Machine.Run
import SlotVM.ProgramFile

namespace SlotVM

/-! ## Whole runs -/

/-- Why a program did not come to an outcome. -/
inductive RunError
  | assembly (e : Assembly.AssemblyError)
  | invalid (i : Invalid)
  | fault (p : Program) (f : Fault)

/-- The message for a failed run. -/
def RunError.message : RunError → String
  | .assembly e => e.message
  | .invalid i => i.message
  | .fault p f => f.message p

/-- Validates a program and runs it from a new machine. -/
def Program.run {σ : Type} (p : Program) (observe : σ → List Event → σ) (limit : Nat) (log : σ)
    (args : List String) : σ × Except RunError (Machine × Outcome) :=
  match p.invalid? with
  | some i => (log, .error (.invalid i))
  | none =>
    let (log, result) := (Machine.ready p).run p observe limit log args
    (log, result.mapError (.fault p))

/-- Assembles a text and runs the program. -/
def runText {σ : Type} (source : String) (observe : σ → List Event → σ) (limit : Nat) (log : σ)
    (args : List String) : σ × Except RunError (Machine × Outcome) :=
  match Assembly.assemble source with
  | .error e => (log, .error (.assembly e))
  | .ok p => p.run observe limit (observe log [.assembled p.functions.size]) args

/-! ## Exit codes -/

/-- The exit code of a run: an integer result itself, brought into the range of exit codes; 1 for
`false` and for an error; otherwise 0. -/
def Outcome.exitCode : Outcome → Nat
  | .threw _ => 1
  | .returned (some (.integer n)) => min n.toInt.toNat 255
  | .returned (some (.bool false)) => 1
  | .returned _ => 0

/-- Whether the exit code tells what the value is. -/
def Value.hasExitCode (v : Value) : Bool := v.kind == .integer || v.kind == .bool

/-! ## The command -/

/-- A command line that was understood. -/
structure Options where
  file : String
  printResult : Bool
  args : List String
deriving Repr

/-- The option to print the result. -/
def printResultOption : String := "--print-result"

/-- The mark after which there are no more options. -/
def endOfOptions : String := "--"

/-- What follows the program file: the option may come first, then the arguments begin. -/
def Options.afterFile (file : String) (printResult : Bool) : List String → Options
  | arg :: rest =>
    if arg = endOfOptions then ⟨file, printResult, rest⟩
    else if arg = printResultOption ∧ !printResult then Options.afterFile file true rest
    else ⟨file, printResult, arg :: rest⟩
  | [] => ⟨file, printResult, []⟩

/-- Reads a command line. There is no result if it names no program file, or an option that does not
exist. -/
def Options.ofArgs? (printResult : Bool) : List String → Option Options
  | arg :: rest =>
    if arg = endOfOptions then
      match rest with
      | file :: args => some ⟨file, printResult, args⟩
      | [] => none
    else if arg = printResultOption ∧ !printResult then Options.ofArgs? true rest
    else if arg.startsWith "-" ∧ arg ≠ "-" then none
    else some (Options.afterFile arg printResult rest)
  | [] => none

/-- What a command prints, and its exit code. -/
structure Report where
  exit : Nat
  output : String
  errors : String
deriving Repr

/-- The report of a command that failed. -/
def Report.failure (message : String) : Report := ⟨2, "", s!"error: {message}\n"⟩

/-- The report of a run. A result is printed if that is asked for, or if the exit code does not tell
it. -/
def Report.ofOutcome (printResult : Bool) (m : Machine) (outcome : Outcome) : Report :=
  match outcome with
  | .threw error => ⟨outcome.exitCode, "", s!"uncaught error: {error.render m.slots}\n"⟩
  | .returned (some v) =>
    let shown := printResult || !v.hasExitCode
    ⟨outcome.exitCode, if shown then v.render m.slots ++ "\n" else "", ""⟩
  | .returned none => ⟨outcome.exitCode, "", ""⟩

/-- Runs the program of a command, whose file has been read. -/
def Options.run (o : Options) (limit : Nat) (content : Except ReadError String) : Report :=
  match content with
  | .error e => .failure s!"Failed to read program file {o.file}: {e.message}"
  | .ok source =>
    match Assembly.assemble source with
    | .error e => .failure s!"Failed to assemble {o.file}: {e.message}"
    | .ok p =>
      match (p.run Machine.ignore limit () o.args).2 with
      | .error e => .failure e.message
      | .ok (m, outcome) => .ofOutcome o.printResult m outcome

/-- The message for a command line that was not understood. -/
def usage : String := "usage: slotvm [--print-result] <program> [args...]\n"

/-- More transitions than any run that ends in practice takes. -/
def practicalLimit : Nat := Nat.pow 2 62

end SlotVM
