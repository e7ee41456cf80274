import Edn.CommandLine

/-!
# The program

Reads files and the standard input, and writes what the command line reports.
-/

namespace Edn

/-- The input of a file. -/
def readFile (path : String) : IO CommandLine.Input := do
  try
    return .ofBytes (← IO.FS.readBinFile path)
  catch
    | .noFileOrDirectory .. => return .missing
    | error => return .error (toString error)

/-- The standard input up to its end. -/
def readStandardInput : IO CommandLine.Input := do
  return .ofBytes (← (← IO.getStdin).readBinToEnd)

/-- The input that the arguments name. -/
def readInput : Option String → IO CommandLine.Input
  | some path => readFile path
  | none => readStandardInput

end Edn

/-- Runs the command line and reports with its exit code. -/
def main (arguments : List String) : IO UInt32 := do
  let report ← Edn.CommandLine.run Edn.CommandLine.wordings arguments Edn.readInput
  IO.print report.output
  IO.eprint report.errors
  return report.code
