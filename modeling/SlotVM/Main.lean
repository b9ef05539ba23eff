/-
The command `slotvm`: runs a program file.
-/
import SlotVM.Command

open SlotVM

/-- The number of a system error, which is reported with either sign. -/
def errorNumber (code : UInt32) : UInt32 := min code (0 - code)

/-- Reads a program file. -/
def readProgram (file : String) : IO (Except ReadError String) := do
  try
    return textOfBytes (← IO.FS.readBinFile file)
  catch
    | .noFileOrDirectory .. => return .error .notFound
    | .inappropriateType _ code _ =>
      return .error (if errorNumber code = 20 then .notDirectory else .isDirectory)
    | .invalidArgument _ code details =>
      return .error (if errorNumber code = 36 then .nameTooLong else .system details)
    | e => return .error (.system (toString e))

def main (args : List String) : IO UInt32 := do
  match Options.ofArgs? false args with
  | none =>
    IO.eprint usage
    return 2
  | some options =>
    let report := options.run practicalLimit (← readProgram options.file)
    IO.print report.output
    IO.eprint report.errors
    return report.exit.toUInt32
