import TypeContracts.Command.Arguments

/-!
# Help

What is printed in place of a run.
-/

namespace TypeContracts.Command

def programName : String := "rtti-check"

def versionText : String := programName ++ " 0.1.0"

def usageText : String := "Usage: " ++ programName ++ " [OPTIONS] <COMMAND>"

def helpText : String := "\n".intercalate [
  "Check values and descriptors against serialized type contracts",
  "",
  usageText,
  "",
  "Commands:",
  "  check   Check a JSON value against a descriptor",
  "            --types <PATH> --value <PATH> [--root <N>] [--file <TEXT>] [--line <N>] [--column <N>]",
  "  compat  Decide whether one descriptor is assignable to another",
  "            --types <PATH> --source <N> --target <N>",
  "  print   Print a descriptor",
  "            --types <PATH> [--root <N>]",
  "  help    Print this message",
  "",
  "Options:",
  "      --no-color                 Disable colored output",
  "      --strict-nullable-sources  Only any is accepted as a universal source",
  "  -h, --help                     Print help",
  "  -V, --version                  Print version"]

def Refusal.text : Refusal → String
  | help => helpText
  | version => versionText
  | usage => "error: invalid arguments\n\n" ++ usageText

/-- A fault goes to standard error, and an answer to standard output. -/
def Refusal.isFault (r : Refusal) : Bool := r.exitStatus != 0

end TypeContracts.Command
