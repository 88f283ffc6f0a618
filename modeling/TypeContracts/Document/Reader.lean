import TypeContracts.Document.Basic
import TypeContracts.Failure
import TypeContracts.Json.Record

/-!
# Reading documents

An entry is a record with a tag: an object with a `type` member, or an array that starts with the tag.
-/

namespace TypeContracts.Document

open Json

def readIndex (x : Json) : Option EntryIndex := x.toUInt32?

def readIndices (x : Json) : Option (List EntryIndex) := x.toList? readIndex

def propertyFields : List String := ["type", "optional"]

def readProperty (x : Json) : Option PropertyEntry := do
  let fields ← x.fields? propertyFields
  return {
    type := ← required fields "type" readIndex
    optional := ← defaulted fields "optional" false toBool? }

def signatureFields : List String := ["args", "mandatoryArgs", "varargs", "result"]

def readSignature (x : Json) : Option SignatureEntry := do
  let fields ← x.fields? signatureFields
  return {
    args := ← defaulted fields "args" [] readIndices
    mandatoryArgs := ← optional fields "mandatoryArgs" fun y => (y.toNatBelow? UInt64.size).map UInt64.ofNat
    varargs := ← optional fields "varargs" readIndex
    result := ← required fields "result" readIndex }

/-- Properties by name. Of two properties with one name the last one counts, in the place of the first. -/
def readProperties : Json → Option (Members PropertyEntry)
  | .object members => do
    let entries ← members.mapM fun (name, x) => (readProperty x).map fun p => (name, p)
    return .ofList entries
  | _ => none

def entryFields : List (String × List String) := [
  ("any", []), ("never", []), ("void", []), ("null", []), ("boolean", []), ("numeric", []), ("string", []),
  ("booleanLiteral", ["value"]),
  ("numericLiteral", ["value"]),
  ("stringLiteral", ["value"]),
  ("union", ["types", "name"]),
  ("intersection", ["types", "name"]),
  ("typeParameter", ["name"]),
  ("objectType", ["name", "properties", "callSignatures", "constructSignatures", "numericIndexType",
    "stringIndexType"])]

def readTagged (tag : String) (fields : Fields) : Option Entry :=
  match tag with
  | "any" => some .any
  | "never" => some .never
  | "void" => some .void
  | "null" => some .null
  | "boolean" => some .boolean
  | "numeric" => some .numeric
  | "string" => some .string
  | "booleanLiteral" => (required fields "value" toBool?).map .booleanLiteral
  | "numericLiteral" => (required fields "value" toDouble?).map .numericLiteral
  | "stringLiteral" => (required fields "value" toString?).map .stringLiteral
  | "union" => do return .union (← required fields "types" readIndices) (← optional fields "name" toString?)
  | "intersection" => do
    return .intersection (← required fields "types" readIndices) (← optional fields "name" toString?)
  | "typeParameter" => (optional fields "name" toString?).map .typeParameter
  | "objectType" => do
    return .objectType {
      name := ← optional fields "name" toString?
      properties := ← defaulted fields "properties" ∅ readProperties
      callSignatures := ← defaulted fields "callSignatures" [] (toList? readSignature)
      constructSignatures := ← defaulted fields "constructSignatures" [] (toList? readSignature)
      numericIndexType := ← optional fields "numericIndexType" readIndex
      stringIndexType := ← optional fields "stringIndexType" readIndex }
  | _ => none

/-- An entry: its tag first, and then the fields that the tag calls for. -/
def readEntry : Json → Option Entry
  | .object members => do
    let tag ← required (← knownMembers ["type"] members) "type" toString?
    let names ← entryFields.lookup tag
    readTagged tag (← fields? names (.object (members.filter fun entry => entry.1 != "type")))
  | .array (.string tag :: elements) => do
    let names ← entryFields.lookup tag
    readTagged tag (← fields? names (.array elements))
  | _ => none

def documentFields : List String := ["types", "root"]

def readDocument (x : Json) : Option Document := do
  let fields ← x.fields? documentFields
  return {
    types := (← required fields "types" (toList? readEntry)).toArray
    root := ← required fields "root" readIndex }

def parse (text : String) : Except Failure Document :=
  match (parseRecord? documentFields maxDepth text).bind readDocument with
  | some document => .ok document
  | none => .error (.malformed .invalidDocument)

end TypeContracts.Document
