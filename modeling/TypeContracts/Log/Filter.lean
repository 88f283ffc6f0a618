import TypeContracts.Log.Pattern
import TypeContracts.Text.Alphanumeric
import TypeContracts.Text.Blank

/-!
# Log levels and filters

A filter is a list of directives. A directive gives a level, for all targets or for those that start with a
name, and for all events or for those with a certain field. Of the directives that apply to an event the most
specific one counts. Parts of a filter's text that are no directives are ignored, with a warning. A text whose
pieces cannot be told apart is no filter at all.
-/

namespace TypeContracts.Log

inductive Level where
  | error
  | warn
  | info
  | debug
  | trace
deriving DecidableEq, Repr

namespace Level

def name : Level → String
  | error => "ERROR"
  | warn => "WARN"
  | info => "INFO"
  | debug => "DEBUG"
  | trace => "TRACE"

/-- Higher for events of less importance; a threshold of zero lets nothing pass. -/
def verbosity : Level → Nat
  | error => 1
  | warn => 2
  | info => 3
  | debug => 4
  | trace => 5

end Level

structure FieldTest where
  name : String
  value : Option String := none
deriving DecidableEq, Repr

/-- Events of targets that start with `target` pass up to the given verbosity: those inside the span, if one is
named, and those with the field, if there is a test on one. -/
structure Directive where
  target : List Char
  span : Option (List Char) := none
  field : Option FieldTest := none
  threshold : Nat
deriving DecidableEq, Repr

/-- The directives of a text, and those of its parts that are none. -/
structure Filter where
  directives : List Directive
  refused : List String := []
deriving DecidableEq, Repr

namespace Directive

/-- Does a directive count for the events of a target that have certain fields? No event happens inside a span,
and values are matched on spans only. -/
def covers (d : Directive) (target : String) (hasField : String → Bool) : Bool :=
  d.span.isNone && d.target.isPrefixOf target.toList &&
    d.field.all fun test => test.value.isNone && hasField test.name

/-- Does a directive count rather than one given before it? The longer target decides, then a test on a field
before none, then the greater name of the field, and of equals the later one. -/
def overrides (d before : Directive) : Bool :=
  if d.target.length ≠ before.target.length then before.target.length < d.target.length
  else
    match before.field, d.field with
    | none, _ => true
    | some _, none => false
    | some old, some new => !decide (new.name < old.name)

end Directive

namespace Filter

def silent : Filter := { directives := [] }

def everything : Filter := { directives := [{ target := [], threshold := Level.trace.verbosity }] }

def directiveFor (f : Filter) (target : String) (hasField : String → Bool) : Option Directive :=
  (f.directives.filter fun d => d.covers target hasField).foldl
    (fun best d =>
      match best with
      | none => some d
      | some before => if d.overrides before then some d else best) none

def admits (f : Filter) (level : Level) (target : String) (hasField : String → Bool) : Bool :=
  match f.directiveFor target hasField with
  | some d => level.verbosity ≤ d.threshold
  | none => false

/-- Is an event of that level and target worth making? Its fields are not known yet, so a directive that asks
for a field counts, whichever it is. -/
def expects (f : Filter) (level : Level) (target : String) : Bool := f.admits level target fun _ => true

/-! ## Reading -/

def lower (text : List Char) : List Char := text.map Char.toLower

def count? (text : List Char) : Option Nat :=
  let digits :=
    match text with
    | '+' :: digits => digits
    | digits => digits
  if digits.isEmpty || !digits.all Char.isDigit then none else some (Nat.ofDigitChars 10 digits 0)

def thresholdOf (text : List Char) : Option Nat :=
  match count? text with
  | some n => if n ≤ Level.trace.verbosity then some n else none
  | none =>
    [("off", 0), ("error", 1), ("warn", 2), ("info", 3), ("debug", 4), ("trace", 5)].lookup
      (String.ofList (lower text))

def beginsDirective (c : Char) : Bool :=
  Text.isAlphanumeric c || c = '-' || c = ':' || c = '_' || c = '['

inductive Fault where
  /-- It has not the form of one. -/
  | refused
  /-- A piece of it would begin or end inside a character. -/
  | torn
deriving DecidableEq, Repr

def byteLength (text : List Char) : Nat := text.foldl (fun n c => n + c.utf8Size) 0

def dropBytes? : Nat → List Char → Option (List Char)
  | 0, text => some text
  | _, [] => none
  | n, c :: rest => if c.utf8Size ≤ n then dropBytes? (n - c.utf8Size) rest else none

def takeBytes? : Nat → List Char → Option (List Char)
  | 0, _ => some []
  | _, [] => none
  | n, c :: rest => if c.utf8Size ≤ n then (takeBytes? (n - c.utf8Size) rest).map (c :: ·) else none

def pieceFrom (text : List Char) (place : Nat) : Except Fault (List Char) :=
  match dropBytes? place text with
  | some piece => .ok piece
  | none => .error .torn

def piece (text : List Char) (place length : Nat) : Except Fault (List Char) :=
  match (dropBytes? place text).bind (takeBytes? length) with
  | some piece => .ok piece
  | none => .error .torn

def orRefused {α : Type} : Option α → Except Fault α
  | some x => .ok x
  | none => .error .refused

/-- A test on a field: a name, or a name and a pattern around an equals sign. -/
def fieldTest (text : List Char) : Option FieldTest :=
  match (String.ofList text).splitOn "=" with
  | name :: value :: _ => if Pattern.isWellFormed value.toList then some ⟨name, some value⟩ else none
  | _ => if text.isEmpty then none else some ⟨String.ofList text, none⟩

/-- The level that ends a directive, whose sign stands at `place` if it has one. Without a level everything
passes. -/
def levelOf (text : List Char) (place : Nat) : List Char → Except Fault Nat
  | [] => .ok Level.trace.verbosity
  | '=' :: _ => do
    let level ← pieceFrom text (place + 1)
    if level.isEmpty then return Level.trace.verbosity else orRefused (thresholdOf level)
  | _ => .error .refused

def trimmed (text : List Char) : List Char :=
  ((text.dropWhile Text.isBlank).reverse.dropWhile Text.isBlank).reverse

/-- The span of a directive and its level. A span has a name and, between braces, a test on a field; with a test
it may have no name. The text inside the brackets begins at `place`, and `rest` is the text from there on. -/
def spanDirective (text target : List Char) (place : Nat) (rest : List Char) : Except Fault Directive := do
  let name := rest.takeWhile fun c => c != ']' && c != '\x7b'
  let stop := place + byteLength name
  match rest.drop name.length with
  | ']' :: rest =>
    let span ← piece text place (byteLength name)
    return { target, span := some span, threshold := ← levelOf text (stop + 1) rest }
  | '\x7b' :: rest =>
    let span ← piece text place (byteLength name)
    let field := rest.takeWhile (· != '\x7d')
    match rest.drop field.length with
    | '\x7d' :: rest =>
      let test ← orRefused (fieldTest (← piece text (stop + 1) (byteLength field)))
      match rest with
      | ']' :: rest =>
        let threshold ← levelOf text (stop + byteLength field + 3) rest
        return { target, span := if span.isEmpty then none else some span, field := some test, threshold }
      | _ => .error .refused
    | _ => .error .refused
  | _ => .error .refused

/-- A directive: a level alone, or a target, a span or both, with or without a level. Its pieces are found in the
text without the blanks around it, and cut at the same places from the text as it is given. -/
def directive (text : List Char) : Except Fault Directive := do
  let body := trimmed text
  let name := body.takeWhile fun c => c != '=' && c != '['
  if !(body.head?.map beginsDirective).getD false then .error .refused
  else
    match body.drop name.length with
    | [] =>
      match thresholdOf text with
      | some threshold => return { target := [], threshold }
      | none => return { target := text, threshold := Level.trace.verbosity }
    | '[' :: rest => spanDirective text (← piece text 0 (byteLength name)) (byteLength name + 1) rest
    | rest =>
      let target ← piece text 0 (byteLength name)
      return { target, threshold := ← levelOf text (byteLength name) rest }

/-- The filter that a text describes: directives between commas. A text without any lets errors pass. -/
def parse? (text : String) : Option Filter :=
  let parts := (text.splitOn ",").filter fun part => !part.isEmpty
  let readings := parts.map fun part => (part, directive part.toList)
  let directives := readings.filterMap fun (_, reading) => reading.toOption
  let refused := readings.filterMap fun (part, reading) => if reading matches .error .refused then some part else none
  if readings.any fun (_, reading) => reading matches .error .torn then none
  else some {
    directives := if directives.isEmpty then [{ target := [], threshold := Level.error.verbosity }] else directives
    refused }

def warnings (f : Filter) : List String :=
  f.refused.map fun part => "ignoring `" ++ part ++ "`: invalid filter directive"

end Filter

inductive Format where
  | text
  | tree
  | json
deriving DecidableEq, Repr

namespace Format

def name : Format → String
  | text => "Text"
  | tree => "Tree"
  | json => "Json"

/-- The format with that name, in any case; plain text for any other name. -/
def parse (name : String) : Format :=
  match String.ofList (Filter.lower name.toList) with
  | "tree" => tree
  | "json" => json
  | _ => text

end Format

end TypeContracts.Log
