import TypeContracts.Json.Parser

/-!
# Reading records from JSON

A record is an object with its fields by name, or an array with its fields in order. A field may be given
once; members under other names are ignored; an array may leave out fields at its end, and has no more
elements than the record has fields.
-/

namespace TypeContracts.Json

def maxDepth : Nat := 127

abbrev Fields := List (String × Json)

/-- The members called by one of `names`, if none of them is repeated. -/
def knownMembers (names : List String) (members : Fields) : Option Fields :=
  let known := members.filter fun entry => names.contains entry.1
  if (known.map Prod.fst).Nodup then some known else none

def fields? (names : List String) : Json → Option Fields
  | .object members => knownMembers names members
  | .array elements => if elements.length ≤ names.length then some (names.zip elements) else none
  | _ => none

/-! ## Field types -/

def toNatBelow? (bound : Nat) : Json → Option Nat
  | .number n => n.toNat?.filter (· < bound)
  | _ => none

def toUInt32? (x : Json) : Option UInt32 := (x.toNatBelow? UInt32.size).map UInt32.ofNat

def toBool? : Json → Option Bool
  | .bool b => some b
  | _ => none

def toString? : Json → Option String
  | .string s => some s
  | _ => none

def toDouble? : Json → Option Double
  | .number n => some n.toDouble
  | _ => none

def toList? {α : Type} (item : Json → Option α) : Json → Option (List α)
  | .array elements => elements.mapM item
  | _ => none

def required {α : Type} (fields : Fields) (name : String) (read : Json → Option α) : Option α :=
  (fields.lookup name).bind read

def defaulted {α : Type} (fields : Fields) (name : String) (default : α) (read : Json → Option α) : Option α :=
  match fields.lookup name with
  | none => some default
  | some x => read x

/-- A field that may be left out or be `null`. -/
def optional {α : Type} (fields : Fields) (name : String) (read : Json → Option α) : Option (Option α) :=
  match fields.lookup name with
  | none | some .null => some none
  | some x => (read x).map some

end TypeContracts.Json
