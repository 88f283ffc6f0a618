import TypeContracts.Json.Basic

/-!
# Reading JSON text

A strict reader: no comments, no trailing commas, no raw control characters, nothing after the value. The
nesting of brackets is bounded by a budget that the caller gives, a number must be finite as a double, and
the escapes of a string must denote characters. Text that is only skipped (the value of a field nobody asks
for) has to be well formed too, but its numbers, its escaped code units and its nesting are not judged.
-/

namespace TypeContracts.Json

abbrev Reader (α : Type) := List Char → Option (α × List Char)

def isBlank (c : Char) : Bool := c = ' ' || c = '\t' || c = '\n' || c = '\r'

def skipBlanks (text : List Char) : List Char := text.dropWhile isBlank

def expect? : List Char → List Char → Option (List Char)
  | [], text => some text
  | c :: word, d :: text => if c = d then expect? word text else none
  | _ :: _, [] => none

/-! ## Numbers -/

def digitsValue (digits : List Char) : Nat := Nat.ofDigitChars 10 digits 0

def digitRun : Reader (List Char) := fun text =>
  match text.takeWhile Char.isDigit with
  | [] => none
  | digits => some (digits, text.dropWhile Char.isDigit)

/-- The digits before the point: a zero stands alone. -/
def integerPart : Reader (List Char)
  | '0' :: text => some (['0'], text)
  | text => digitRun text

def fractionPart : Reader (Option (List Char))
  | '.' :: text => (digitRun text).map fun (digits, rest) => (some digits, rest)
  | text => some (none, text)

def exponentPart : Reader (Option Int)
  | e :: text =>
    if e = 'e' || e = 'E' then
      match text with
      | '-' :: text => (digitRun text).map fun (digits, rest) => (some (-(digitsValue digits : Int)), rest)
      | '+' :: text => (digitRun text).map fun (digits, rest) => (some (digitsValue digits : Int), rest)
      | text => (digitRun text).map fun (digits, rest) => (some (digitsValue digits : Int), rest)
    else some (none, e :: text)
  | [] => some (none, [])

/-- Appends digits to a number as long as it stays below `2 ^ 64`. The digits from the first that does not fit
are left. -/
def absorb (n : Nat) : List Char → Nat × List Char
  | [] => (n, [])
  | digit :: digits =>
    let next := 10 * n + (digit.toNat - '0'.toNat)
    if next < UInt64.size then absorb next digits else (n, digit :: digits)

/-- The numeral with the given digits before and after the point. Digits before the point that do not fit count
as places only; those after it go on where the others stopped. -/
def numeralOf (negative : Bool) (whole : List Char) (fraction : Option (List Char)) (exponent : Option Int) :
    Numeral :=
  let places := fraction.getD []
  let (significand, dropped) := absorb 0 whole
  let (significand, ignored) := absorb significand places
  { negative, significand
    power := exponent.getD 0 + dropped.length - (places.length - ignored.length : Nat)
    integral := fraction.isNone && exponent.isNone && dropped.isEmpty }

def unsignedNumeral (negative : Bool) : Reader Numeral := fun text => do
  let (whole, text) ← integerPart text
  if (text.head?.map Char.isDigit).getD false then none
  let (fraction, text) ← fractionPart text
  let (exponent, text) ← exponentPart text
  return (numeralOf negative whole fraction exponent, text)

def numeral : Reader Numeral
  | '-' :: text => unsignedNumeral true text
  | text => unsignedNumeral false text

/-! ## Strings -/

def hexValue (c : Char) : Option Nat :=
  if c.isDigit then some (c.toNat - '0'.toNat)
  else if 'a' ≤ c && c ≤ 'f' then some (c.toNat - 'a'.toNat + 10)
  else if 'A' ≤ c && c ≤ 'F' then some (c.toNat - 'A'.toNat + 10)
  else none

def codeUnit : Reader Nat
  | a :: b :: c :: d :: text => do
    let a ← hexValue a
    let b ← hexValue b
    let c ← hexValue c
    let d ← hexValue d
    return (4096 * a + 256 * b + 16 * c + d, text)
  | _ => none

def isHighSurrogate (n : Nat) : Bool := 0xD800 ≤ n && n ≤ 0xDBFF

def isLowSurrogate (n : Nat) : Bool := 0xDC00 ≤ n && n ≤ 0xDFFF

def pairValue (high low : Nat) : Char := Char.ofNat (0x10000 + 1024 * (high - 0xD800) + (low - 0xDC00))

/-- The character after a backslash and `u`. A surrogate must be the first half of a pair. -/
def unicodeEscape : Reader Char := fun text => do
  let (unit, text) ← codeUnit text
  if isHighSurrogate unit then
    match text with
    | '\\' :: 'u' :: text =>
      let (low, text) ← codeUnit text
      if isLowSurrogate low then some (pairValue unit low, text) else none
    | _ => none
  else if isLowSurrogate unit then none
  else some (Char.ofNat unit, text)

def simpleEscape : Char → Option Char
  | '"' => some '"'
  | '\\' => some '\\'
  | '/' => some '/'
  | 'b' => some '\x08'
  | 'f' => some '\x0c'
  | 'n' => some '\n'
  | 'r' => some '\r'
  | 't' => some '\t'
  | _ => none

/-- The character after a backslash. Skipped text is not asked whether its code units pair up. -/
def escape (skipping : Bool) : Reader Char
  | 'u' :: text =>
    if skipping then (codeUnit text).map fun (_, rest) => ('u', rest) else unicodeEscape text
  | c :: text => (simpleEscape c).map fun d => (d, text)
  | [] => none

def stringBody (skipping : Bool) : Nat → List Char → Reader (List Char)
  | 0, _, _ => none
  | _ + 1, _, [] => none
  | budget + 1, done, c :: text =>
    if c = '"' then some (done.reverse, text)
    else if c = '\\' then
      match escape skipping text with
      | some (d, rest) => stringBody skipping budget (d :: done) rest
      | none => none
    else if c.toNat < 0x20 then none
    else stringBody skipping budget (c :: done) text

def stringRest (skipping : Bool) (budget : Nat) : Reader String := fun text =>
  (stringBody skipping budget [] text).map fun (body, rest) => (String.ofList body, rest)

/-! ## Arrays and objects -/

/-- Items separated by commas up to the closing bracket, at least one and at most `budget`. -/
def items {α : Type} (item : Reader α) (close : Char) : Nat → List α → Reader (List α)
  | 0, _, _ => none
  | budget + 1, done, text =>
    match item (skipBlanks text) with
    | none => none
    | some (x, rest) =>
      match skipBlanks rest with
      | ',' :: rest => items item close budget (x :: done) rest
      | c :: rest => if c = close then some ((x :: done).reverse, rest) else none
      | [] => none

def bracketed {α : Type} (item : Reader α) (close : Char) (budget : Nat) : Reader (List α) := fun text =>
  match skipBlanks text with
  | [] => none
  | c :: rest => if c = close then some ([], rest) else items item close budget [] (c :: rest)

def memberOf {α : Type} (skipping : Bool) (budget : Nat) (value : String → Reader α) : Reader (String × α)
  | '"' :: text => do
    let (name, text) ← stringRest skipping budget text
    match skipBlanks text with
    | ':' :: text =>
      let (x, text) ← value name (skipBlanks text)
      return ((name, x), text)
    | _ => none
  | _ => none

/-- A value whose brackets nest at most `depth` deep. No string and no sequence in it is longer than
`budget`, which is at least the length of the text. -/
def value (skipping : Bool) (budget : Nat) : Nat → Reader Json
  | _, 'n' :: text => (expect? ['u', 'l', 'l'] text).map fun rest => (.null, rest)
  | _, 't' :: text => (expect? ['r', 'u', 'e'] text).map fun rest => (.bool true, rest)
  | _, 'f' :: text => (expect? ['a', 'l', 's', 'e'] text).map fun rest => (.bool false, rest)
  | _, '"' :: text => (stringRest skipping budget text).map fun (s, rest) => (.string s, rest)
  | 0, '[' :: _ => none
  | 0, '\x7b' :: _ => none
  | depth + 1, '[' :: text =>
    (bracketed (value skipping budget depth) ']' budget text).map fun (elements, rest) =>
      (.array elements, rest)
  | depth + 1, '\x7b' :: text =>
    let entry := memberOf skipping budget fun _ => value skipping budget depth
    (bracketed entry '\x7d' budget text).map fun (members, rest) => (.object members, rest)
  | _, text =>
    match numeral text with
    | some (n, rest) => if skipping || n.toDouble.isFinite then some (.number n, rest) else none
    | none => none

/-- A value of which only some fields are asked for: the members under other names are skipped. -/
def record (fields : List String) (budget depth : Nat) : Reader Json
  | '\x7b' :: text =>
    let field (name : String) : Reader (Option Json) := fun rest =>
      if fields.contains name then (value false budget (depth - 1) rest).map fun (x, rest) => (some x, rest)
      else (value true budget budget rest).map fun (_, rest) => (none, rest)
    (bracketed (memberOf false budget field) '\x7d' budget text).map fun (members, rest) =>
      (.object (members.filterMap fun (name, x) => x.map fun x => (name, x)), rest)
  | text => value false budget depth text

/-- What stands alone in a text, but for blanks around it. The reader is given a budget that no part of
the text exceeds. -/
def alone {α : Type} (reader : Nat → Reader α) (text : String) : Option α :=
  let chars := text.toList
  match reader (chars.length + 1) (skipBlanks chars) with
  | some (x, rest) => if (skipBlanks rest).isEmpty then some x else none
  | none => none

def parse? (depth : Nat) (text : String) : Option Json := alone (fun budget => value false budget depth) text

/-- The record that a text denotes. Repeated fields are kept for the caller to refuse. -/
def parseRecord? (fields : List String) (depth : Nat) (text : String) : Option Json :=
  alone (fun budget => record fields budget depth) text

end TypeContracts.Json
