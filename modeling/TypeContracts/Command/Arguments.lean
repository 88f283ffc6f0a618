import TypeContracts.Engine.Basic

/-!
# Command-line arguments

Options may be written `--name value` or `--name=value` and come once; flags take no value and come once at
each level. The two flags of the program may stand before or after the subcommand, all other options belong to
one subcommand. Arguments are read from left to right, and the first request for help or fault decides.
-/

namespace TypeContracts.Command

structure CheckArguments where
  types : String
  value : String
  root : Option UInt32
  file : Option String
  line : UInt32
  column : UInt32
deriving DecidableEq, Repr

/-- Where a violation is reported: nowhere, unless a file is given. -/
def CheckArguments.location (a : CheckArguments) : Location :=
  match a.file with
  | some file => ⟨file, a.line, a.column⟩
  | none => .unknown

inductive Subcommand where
  | check (arguments : CheckArguments)
  | compat (types : String) (source target : UInt32)
  | print (types : String) (root : Option UInt32)
deriving DecidableEq, Repr

structure Arguments where
  noColor : Bool
  strictNullableSources : Bool
  command : Subcommand
deriving DecidableEq, Repr

def Arguments.options (a : Arguments) : Options := { strictNullableSources := a.strictNullableSources }

/-- Why the arguments do not lead to a run. -/
inductive Refusal where
  | help
  | version
  | usage
deriving DecidableEq, Repr

def Refusal.exitStatus : Refusal → Nat
  | help | version => 0
  | usage => 2

/-! ## Options of a level -/

inductive ValueKind where
  /-- Any text but the empty one. -/
  | path
  | text
  /-- A number of 32 bits. -/
  | number
deriving DecidableEq, Repr

/-- A number with an optional sign, in the range of 32 bits. -/
def number? (text : String) : Option UInt32 :=
  let (negative, digits) :=
    match text.toList with
    | '-' :: digits => (true, digits)
    | '+' :: digits => (false, digits)
    | digits => (false, digits)
  if digits.isEmpty || !digits.all Char.isDigit then none
  else
    let n := Nat.ofDigitChars 10 digits 0
    if n < UInt32.size && (!negative || n == 0) then some (UInt32.ofNat n) else none

def ValueKind.admits : ValueKind → String → Bool
  | .path, value => !value.isEmpty
  | .text, _ => true
  | .number, value => (number? value).isSome

structure Given where
  options : List (String × String) := []
  flags : List String := []

def flagNames : List String := ["no-color", "strict-nullable-sources"]

/-- An argument that starts with two dashes: its name, and the value after an equals sign. -/
def splitLong (argument : List Char) : Option (String × Option String) :=
  match argument with
  | '-' :: '-' :: rest =>
    let name := rest.takeWhile (· != '=')
    some (String.ofList name,
      match rest.drop name.length with
      | [] => none
      | _ :: value => some (String.ofList value))
  | _ => none

/-- Could the argument be an option rather than a value? A single dash is a value. -/
def looksLikeOption (argument : String) : Bool :=
  match argument.toList with
  | ['-'] => false
  | '-' :: _ => true
  | _ => false

def Given.addFlag (g : Given) (name : String) : Except Refusal Given :=
  if g.flags.contains name then .error .usage else .ok { g with flags := name :: g.flags }

def Given.addOption (g : Given) (kind : ValueKind) (name value : String) : Except Refusal Given :=
  if (g.options.lookup name).isSome || !kind.admits value then .error .usage
  else .ok { g with options := (name, value) :: g.options }

def readOptions (options : List (String × ValueKind)) (g : Given) : List String → Except Refusal Given
  | [] => .ok g
  | ["--"] => .ok g
  | argument :: rest =>
    match splitLong argument.toList with
    | none => if argument.startsWith "-h" then .error .help else .error .usage
    | some ("help", none) => .error .help
    | some (name, value) =>
      if flagNames.contains name then
        match value with
        | some _ => .error .usage
        | none => do readOptions options (← g.addFlag name) rest
      else
        match options.lookup name, value, rest with
        | some kind, some value, rest => do readOptions options (← g.addOption kind name value) rest
        | some kind, none, value :: rest =>
          if looksLikeOption value then .error .usage
          else do readOptions options (← g.addOption kind name value) rest
        | _, _, _ => .error .usage

/-! ## Subcommands -/

def checkOptions : List (String × ValueKind) :=
  [("types", .path), ("value", .path), ("root", .number), ("file", .text), ("line", .number),
   ("column", .number)]

def compatOptions : List (String × ValueKind) := [("types", .path), ("source", .number), ("target", .number)]

def printOptions : List (String × ValueKind) := [("types", .path), ("root", .number)]

def subcommandNames : List String := ["check", "compat", "print", "help"]

def Given.need (g : Given) (name : String) : Except Refusal String :=
  match g.options.lookup name with
  | some value => .ok value
  | none => .error .usage

def Given.number (g : Given) (name : String) : Option UInt32 := (g.options.lookup name).bind number?

def Given.needNumber (g : Given) (name : String) : Except Refusal UInt32 := do
  return (number? (← g.need name)).getD 0

def checkOf (g : Given) : Except Refusal Subcommand := do
  return .check {
    types := ← g.need "types"
    value := ← g.need "value"
    root := g.number "root"
    file := g.options.lookup "file"
    line := (g.number "line").getD 0
    column := (g.number "column").getD 0 }

def compatOf (g : Given) : Except Refusal Subcommand := do
  return .compat (← g.need "types") (← g.needNumber "source") (← g.needNumber "target")

def printOf (g : Given) : Except Refusal Subcommand := do
  return .print (← g.need "types") (g.number "root")

def readSubcommand (before : Given) (options : List (String × ValueKind))
    (command : Given → Except Refusal Subcommand) (arguments : List String) : Except Refusal Arguments := do
  let g ← readOptions options {} arguments
  let given (flag : String) : Bool := before.flags.contains flag || g.flags.contains flag
  return {
    noColor := given "no-color"
    strictNullableSources := given "strict-nullable-sources"
    command := ← command g }

def readHelp : List String → Refusal
  | [] => .help
  | [name] => if subcommandNames.contains name then .help else .usage
  | _ => .usage

def readProgram (g : Given) : List String → Except Refusal Arguments
  | [] => .error .usage
  | "check" :: rest => readSubcommand g checkOptions checkOf rest
  | "compat" :: rest => readSubcommand g compatOptions compatOf rest
  | "print" :: rest => readSubcommand g printOptions printOf rest
  | "help" :: rest => .error (readHelp rest)
  | argument :: rest =>
    match splitLong argument.toList with
    | none =>
      if argument.startsWith "-h" then .error .help
      else if argument.startsWith "-V" then .error .version
      else .error .usage
    | some ("help", none) => .error .help
    | some ("version", none) => .error .version
    | some (name, none) => if flagNames.contains name then do readProgram (← g.addFlag name) rest else .error .usage
    | some (_, some _) => .error .usage

def parse (arguments : List String) : Except Refusal Arguments := readProgram {} arguments

end TypeContracts.Command
