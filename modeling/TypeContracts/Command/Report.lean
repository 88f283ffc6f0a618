import TypeContracts.Command.Run

/-!
# Reporting a verdict

Good news is green, bad news bold red. Of a violation only the first line is painted. A run that fails reports
what it was doing and why it could not go on.
-/

namespace TypeContracts.Command

def resetCode : String := "\x1b[0m"

def okCode : String := "\x1b[32m"

def errorCode : String := "\x1b[1;31m"

/-- Paints a text. Where the text itself ends its painting, it is painted again. -/
def paint (color : Bool) (code text : String) : String :=
  if color then code ++ text.replace resetCode (resetCode ++ code) ++ resetCode else text

def render (color : Bool) : Verdict → String
  | .conforms => paint color okCode "ok"
  | .compatible => paint color okCode "compatible"
  | .incompatible => paint color errorCode "incompatible"
  | .printed text => text
  | .violation text =>
    let chars := text.toList
    let first := chars.takeWhile (· != '\n')
    paint color errorCode (String.ofList first) ++ String.ofList (chars.drop first.length)

def ReadError.description : ReadError → String
  | notFound => "no such file or directory"
  | isADirectory => "is a directory"
  | notADirectory => "not a directory"
  | invalidFilename => "name too long"
  | invalidData => "not valid UTF-8"
  | permissionDenied => "permission denied"
  | other => "read error"

def Cause.text : Cause → String
  | unreadable error => error.description
  | notJson => "invalid JSON"
  | failure error => error.message

def RunFailure.text (e : RunFailure) : String :=
  "Error: " ++ e.doing ++ (e.cause.map fun cause => "\n\nCaused by:\n    " ++ cause.text).getD ""

end TypeContracts.Command
