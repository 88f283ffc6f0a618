import TypeContracts.Command.Help
import TypeContracts.Command.Report
import TypeContracts.Log.Line

/-!
# The command line

Verdicts go to standard output, and all else to standard error. The files that the arguments name are read
before the run, which is then a function of their texts.
-/

namespace TypeContracts.Command

def readText (path : String) : IO (Except ReadError String) := do
  try
    match String.fromUTF8? (← IO.FS.readBinFile path) with
    | some text => return .ok text
    | none => return .error .invalidData
  catch
    | .noFileOrDirectory .. => return .error .notFound
    | .inappropriateType .. => return .error .isADirectory
    | .invalidArgument .. => return .error .invalidFilename
    | .permissionDenied .. => return .error .permissionDenied
    | _ => return .error .other

def pathsOf : Subcommand → List String
  | .check arguments => [arguments.types, arguments.value]
  | .compat types .. | .print types _ => [types]

/-- Runs a command and prints its verdict, after what was logged on the way. -/
def execute (filter : Log.Filter) (parsed : Arguments) : IO UInt32 := do
  let texts ← (pathsOf parsed.command).mapM fun path => return (path, ← readText path)
  let format := Log.Format.parse ((← IO.getEnv "RTTI_LOG_FORMAT").getD "")
  let name := (← IO.getEnv "RTTI_RUN_ID").getD "default"
  let (result, journal) := run (fun path => (texts.lookup path).getD (.error .notFound)) filter parsed
  for event in journal.events do
    IO.eprintln (event.line format name)
  match result with
  | .ok verdict =>
    let color := !parsed.noColor && (← (← IO.getStdout).isTty)
    IO.println (render color verdict)
    return UInt32.ofNat verdict.exitStatus
  | .error failure =>
    IO.eprintln failure.text
    return 1

end TypeContracts.Command

open TypeContracts

def main (arguments : List String) : IO UInt32 := do
  match Command.filterOf (← IO.getEnv "RTTI_LOG") (← IO.getEnv "RUST_LOG") with
  | none =>
    IO.eprintln "the log filter cannot be read"
    return UInt32.ofNat Command.abortStatus
  | some filter =>
    for warning in filter.warnings do
      IO.eprintln warning
    match Command.parse arguments with
    | .error refusal =>
      if refusal.isFault then IO.eprintln refusal.text else IO.println refusal.text
      return UInt32.ofNat refusal.exitStatus
    | .ok parsed => Command.execute filter parsed
