import TypeContracts.Log.Pattern.Basic
import TypeContracts.Text.Alphanumeric
import TypeContracts.Text.Blank

/-!
# Reading regular expressions

A reader goes through the text from left to right. In verbose mode it passes over blanks and comments. The text
holds no closing brace, so whatever needs one is refused: counted repetitions, and names and codes in braces.
-/

namespace TypeContracts.Log.Pattern

/-- The text that is left, whether blanks and comments are passed over, and the names given to groups so far. -/
structure Cursor where
  rest : List Char
  verbose : Bool := false
  names : List (List Char) := []

abbrev Reader := StateT Cursor Option

def moveTo (rest : List Char) : Reader Unit := modify fun s => { s with rest }

def afterBlanks (inComment : Bool) : List Char → List Char
  | [] => []
  | c :: rest =>
    if inComment then afterBlanks (c != '\n') rest
    else if Text.isBlank c then afterBlanks false rest
    else if c = '#' then afterBlanks true rest
    else c :: rest

def skipBlanks : Reader Unit := modify fun s => if s.verbose then { s with rest := afterBlanks false s.rest } else s

def advance (rest : List Char) : Reader Unit := do
  moveTo rest
  skipBlanks

/-! ## Escapes -/

inductive Escape where
  | literal (x : Literal)
  | anchor
  | wordBoundary
  | kind (negated : Bool)
  | property

def hexDigit? (c : Char) : Option Nat :=
  if c.isDigit then some (c.toNat - '0'.toNat)
  else if 'a' ≤ c && c ≤ 'f' then some (c.toNat - 'a'.toNat + 10)
  else if 'A' ≤ c && c ≤ 'F' then some (c.toNat - 'A'.toNat + 10)
  else none

def hexDigits (code : Nat) : Nat → Reader Nat
  | 0 => return code
  | count + 1 => do
    match (← get).rest with
    | [] => failure
    | c :: rest =>
      match hexDigit? c with
      | none => failure
      | some digit =>
        advance rest
        hexDigits (16 * code + digit) count

def codeEscape (count : Nat) : Reader Escape := do
  skipBlanks
  let code ← hexDigits 0 count
  if Nat.isValidChar code then return .literal ⟨Char.ofNat code, count == 2⟩ else failure

/-- Punctuation may be escaped wherever it stands; the angle brackets mean something else. -/
def isEscapable (c : Char) : Bool := c.toNat < 0x80 && !c.isAlphanum && c != '<' && c != '>'

def controls : List (Char × Char) :=
  [('a', '\x07'), ('f', '\x0c'), ('t', '\t'), ('n', '\n'), ('r', '\r'), ('v', '\x0b')]

def escape : Reader Escape := do
  match (← get).rest with
  | [] => failure
  | c :: rest =>
    moveTo rest
    match c with
    | 'x' => codeEscape 2
    | 'u' => codeEscape 4
    | 'U' => codeEscape 8
    | 'd' | 's' | 'w' => return .kind false
    | 'D' | 'S' | 'W' => return .kind true
    | 'p' | 'P' => return .property
    | 'A' | 'z' => return .anchor
    | 'b' | 'B' | '<' | '>' => return .wordBoundary
    | c =>
      if isEscapable c then return .literal ⟨c, false⟩
      else
        match controls.lookup c with
        | some control => return .literal ⟨control, false⟩
        | none => failure

/-! ## Classes -/

def className : List String :=
  ["alnum", "alpha", "ascii", "blank", "cntrl", "digit", "graph", "lower", "print", "punct", "space", "upper",
   "word", "xdigit"]

/-- What follows a class that is given by name, whose bracket has been read. -/
def namedClass : List Char → Option (Bool × List Char)
  | ':' :: rest =>
    let (negated, rest) :=
      match rest with
      | '^' :: rest => (true, rest)
      | rest => (false, rest)
    let name := rest.takeWhile (· != ':')
    match rest.drop name.length with
    | ':' :: ']' :: rest => if className.contains (String.ofList name) then some (negated, rest) else none
    | _ => none
  | _ => none

def classItem : Reader Escape := do
  match (← get).rest with
  | [] => failure
  | '\\' :: rest =>
    moveTo rest
    escape
  | c :: rest =>
    moveTo rest
    return .literal ⟨c, false⟩

/-- The next character that counts. In verbose mode that is one after blanks, or after the sign that begins a
comment and the blanks after it. -/
def lookAhead (verbose : Bool) (text : List Char) : Option Char :=
  if !verbose then text.head?
  else
    match text.dropWhile Text.isBlank with
    | '#' :: rest => (rest.dropWhile Text.isBlank).head?
    | rest => rest.head?

/-- An item of a class: a single one, or a range if a hyphen and another end follow. -/
def classRange : Reader ClassItem := do
  let first ← classItem
  skipBlanks
  let s ← get
  let single : Reader ClassItem :=
    match first with
    | .literal x => return .literal x
    | .kind negated => return .kind negated
    | .property => return .property
    | .anchor | .wordBoundary => failure
  match s.rest with
  | [] => failure
  | '-' :: rest =>
    match lookAhead s.verbose rest with
    | some ']' | some '-' => single
    | _ =>
      advance rest
      match first, ← classItem with
      | .literal first, .literal last => if first.char ≤ last.char then return .range first last else failure
      | _, _ => failure
  | _ => single

def leadingHyphens : Nat → List ClassItem → Reader (List ClassItem)
  | 0, done => return done
  | budget + 1, done => do
    match (← get).rest with
    | '-' :: rest =>
      advance rest
      leadingHyphens budget (.literal ⟨'-', false⟩ :: done)
    | _ => return done

/-- What is special at the start of a class: a negation, hyphens, and a closing bracket that stands first. -/
def classStart (budget : Nat) : Reader (Bool × List ClassItem) := do
  skipBlanks
  let negated ←
    match (← get).rest with
    | '^' :: rest =>
      advance rest
      pure true
    | _ => pure false
  let hyphens ← leadingHyphens budget []
  match hyphens, (← get).rest with
  | [], ']' :: rest =>
    advance rest
    return (negated, [.literal ⟨']', false⟩])
  | hyphens, _ => return (negated, hyphens)

def operands (left : Option ClassSet) (items : List ClassItem) : ClassSet :=
  match left with
  | some left => .operation left items.reverse
  | none => .union items.reverse

/-- The rest of a class up to its closing bracket, with `nested` for the classes in it. -/
def classRest (nested : Reader ClassItem) : Nat → Option ClassSet → List ClassItem → Reader ClassSet
  | 0, _, _ => failure
  | budget + 1, left, items => do
    skipBlanks
    match (← get).rest with
    | [] => failure
    | '[' :: rest =>
      match namedClass rest with
      | some (negated, rest) =>
        moveTo rest
        classRest nested budget left (.named negated :: items)
      | none =>
        moveTo rest
        classRest nested budget left ((← nested) :: items)
    | ']' :: rest =>
      moveTo rest
      return operands left items
    | '&' :: '&' :: rest | '-' :: '-' :: rest | '~' :: '~' :: rest =>
      moveTo rest
      classRest nested budget (some (operands left items)) []
    | _ => classRest nested budget left ((← classRange) :: items)

/-- A class whose opening bracket has been read. Classes in it nest at most `depth` deep. -/
def bracketClass (budget : Nat) : Nat → Reader (Bool × ClassSet)
  | 0 => failure
  | depth + 1 => do
    let nested : Reader ClassItem := do
      let (negated, set) ← bracketClass budget depth
      return .nested negated set
    let (negated, items) ← classStart budget
    return (negated, ← classRest nested budget none items)

/-! ## Groups -/

def isGroupName : List Char → Bool
  | [] => false
  | c :: rest =>
    (c = '_' || Text.isAlphabetic c) &&
      rest.all fun c => Text.isAlphanumeric c || c = '_' || c = '.' || c = '[' || c = ']'

/-- Reads the name of a group, which no other group has, up to the angle bracket that closes it. -/
def groupName (text : List Char) : Reader Unit := do
  let name := text.takeWhile (· != '>')
  let names := (← get).names
  match text.drop name.length with
  | '>' :: rest =>
    if isGroupName name && !names.contains name then modify fun s => { s with rest, names := name :: names }
    else failure
  | _ => failure

/-- Flags are set or, after a hyphen, unset, each of them once. -/
def flagsOf (letters : List Char) : Option Flags :=
  if letters.all (['i', 'm', 's', 'U', 'u', 'x', 'R', '-'].contains ·) && letters.Nodup &&
      letters.getLast? != some '-' then
    let set := letters.takeWhile (· != '-')
    some (set.map (·, true) ++ (letters.drop (set.length + 1)).map (·, false))
  else none

/-- Reads a group whose opening parenthesis has been read, with `body` for what it holds, or flags that stand
alone. What a group changes ends with it. -/
def group (body : Reader Expression) : Reader Expression := do
  skipBlanks
  let outer := (← get).verbose
  let finish (changes : Flags) : Reader Expression := do
    modify fun s => { s with verbose := (changes.lookup 'x').getD outer }
    let inside ← body
    match (← get).rest with
    | ')' :: rest =>
      modify fun s => { s with rest, verbose := outer }
      return .group changes inside
    | _ => failure
  match (← get).rest with
  | '?' :: 'P' :: '<' :: rest | '?' :: '<' :: rest =>
    groupName rest
    finish []
  | '?' :: rest =>
    let letters := rest.takeWhile fun c => c != ':' && c != ')'
    match flagsOf letters, rest.drop letters.length with
    | some changes, ':' :: rest =>
      moveTo rest
      finish changes
    | some changes, ')' :: rest =>
      if changes.isEmpty then failure
      else
        modify fun s => { s with rest, verbose := (changes.lookup 'x').getD outer }
        return .flags changes
    | _, _ => failure
  | _ => finish []

/-! ## Expressions -/

def primitive (c : Char) : Reader Expression := do
  match c with
  | '.' => return .dot
  | '^' | '$' => return .anchor
  | '\\' =>
    match ← escape with
    | .literal x => return .literal x
    | .anchor => return .anchor
    | .wordBoundary => return .wordBoundary
    | .kind negated => return .kind negated
    | .property => return .property
  | c => return .literal ⟨c, false⟩

/-- Repeats the last part. There must be one, and flags are none. -/
def repeatLast : List Expression → Option (List Expression)
  | [] | .flags _ :: _ => none
  | last :: parts => some (.repetition last :: parts)

/-- What stands up to the end or to a closing parenthesis, with `body` for what groups hold. -/
def parts (body : Reader Expression) (budget : Nat) :
    Nat → List Expression → List Expression → Reader Expression
  | 0, _, _ => failure
  | steps + 1, branches, done => do
    skipBlanks
    match (← get).rest with
    | [] | ')' :: _ => return .alternation ((.concatenation done.reverse :: branches).reverse)
    | '|' :: rest =>
      moveTo rest
      parts body budget steps (.concatenation done.reverse :: branches) []
    | '(' :: rest =>
      moveTo rest
      parts body budget steps branches ((← group body) :: done)
    | '[' :: rest =>
      moveTo rest
      let (negated, set) ← bracketClass budget budget
      parts body budget steps branches (.charClass negated set :: done)
    | '\x7b' :: _ => failure
    | c :: rest =>
      if c = '?' || c = '*' || c = '+' then
        match repeatLast done with
        | none => failure
        | some done =>
          moveTo (match rest with
            | '?' :: rest => rest
            | rest => rest)
          parts body budget steps branches done
      else
        moveTo rest
        parts body budget steps branches ((← primitive c) :: done)

def expression (budget : Nat) : Nat → Reader Expression
  | 0 => failure
  | depth + 1 => parts (expression budget depth) budget budget [] []

def read? (text : List Char) : Option Expression := do
  let budget := text.length + 1
  let (expression, s) ← (expression budget budget).run { rest := text }
  if s.rest.isEmpty then some expression else none

end TypeContracts.Log.Pattern
