import TypeContracts.Double.Text
import TypeContracts.Json.Basic

/-!
# Writing JSON text

Compact text: no blanks, members in their order, and only the characters that must be escaped are escaped.
-/

namespace TypeContracts.Json

def hexDigit (n : Nat) : Char := (Nat.toDigits 16 (n % 16)).headD '0'

def escaped (c : Char) : List Char :=
  if c = '"' then ['\\', '"']
  else if c = '\\' then ['\\', '\\']
  else if c = '\x08' then ['\\', 'b']
  else if c = '\x0c' then ['\\', 'f']
  else if c = '\n' then ['\\', 'n']
  else if c = '\r' then ['\\', 'r']
  else if c = '\t' then ['\\', 't']
  else if c.toNat < 0x20 then ['\\', 'u', '0', '0', hexDigit (c.toNat / 16), hexDigit c.toNat]
  else [c]

def writeString (out : String) (s : String) : String :=
  (s.toList.foldl (fun out c => (escaped c).foldl String.push out) (out.push '"')).push '"'

/-- Appends a number: an integer plainly, any other with a point or an exponent. -/
def writeNumeral (out : String) (n : Numeral) : String :=
  let out := if n.negative then out.push '-' else out
  if n.integral then out ++ toString n.significand
  else if n.significand = 0 then out ++ Double.Layout.json.zero
  else out ++ Double.Layout.json.decimal ⟨n.significand, n.power⟩

mutual

def write (out : String) : Json → String
  | .null => out ++ "null"
  | .bool true => out ++ "true"
  | .bool false => out ++ "false"
  | .number n => writeNumeral out n
  | .string s => writeString out s
  | .array elements => (writeElements (out.push '[') true elements).push ']'
  | .object members => (writeMembers (out.push '\x7b') true members).push '\x7d'

def writeElements (out : String) (first : Bool) : List Json → String
  | [] => out
  | x :: rest => writeElements (write (if first then out else out.push ',') x) false rest

def writeMembers (out : String) (first : Bool) : List (String × Json) → String
  | [] => out
  | (name, x) :: rest =>
    let out := writeString (if first then out else out.push ',') name
    writeMembers (write (out.push ':') x) false rest

end

def render (x : Json) : String := write "" x

end TypeContracts.Json
