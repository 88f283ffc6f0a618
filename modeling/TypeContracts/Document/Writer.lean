import TypeContracts.Document.Basic
import TypeContracts.Json.Basic

/-!
# Writing documents

The canonical form of a document: every struct is an object, and absent options are left out. How a number
literal is written is the caller's choice.
-/

namespace TypeContracts.Document

def writeIndex (i : EntryIndex) : Json := .ofNat i.toNat

def writeIndices (is : List EntryIndex) : Json := .array (is.map writeIndex)

def optionalField {α : Type} (name : String) (write : α → Json) (x : Option α) : List (String × Json) :=
  x.toList.map fun y => (name, write y)

def writeProperty (p : PropertyEntry) : Json :=
  .object [("type", writeIndex p.type), ("optional", .bool p.optional)]

def writeSignature (s : SignatureEntry) : Json :=
  .object <|
    [("args", writeIndices s.args)] ++
    optionalField "mandatoryArgs" (fun n => .ofNat n.toNat) s.mandatoryArgs ++
    optionalField "varargs" writeIndex s.varargs ++
    [("result", writeIndex s.result)]

def writeName (name : Option String) : List (String × Json) := optionalField "name" .string name

def Entry.tag : Entry → String
  | .any => "any"
  | .never => "never"
  | .void => "void"
  | .null => "null"
  | .boolean => "boolean"
  | .numeric => "numeric"
  | .string => "string"
  | .booleanLiteral _ => "booleanLiteral"
  | .numericLiteral _ => "numericLiteral"
  | .stringLiteral _ => "stringLiteral"
  | .union .. => "union"
  | .intersection .. => "intersection"
  | .typeParameter _ => "typeParameter"
  | .objectType _ => "objectType"

def Entry.fields (writeNumber : Double → Json) : Entry → List (String × Json)
  | .booleanLiteral value => [("value", .bool value)]
  | .numericLiteral value => [("value", writeNumber value)]
  | .stringLiteral value => [("value", .string value)]
  | .union types name => ("types", writeIndices types) :: writeName name
  | .intersection types name => ("types", writeIndices types) :: writeName name
  | .typeParameter name => writeName name
  | .objectType entry =>
    writeName entry.name ++
    [("properties", .object (entry.properties.toList.map fun (name, p) => (name, writeProperty p))),
     ("callSignatures", .array (entry.callSignatures.map writeSignature)),
     ("constructSignatures", .array (entry.constructSignatures.map writeSignature))] ++
    optionalField "numericIndexType" writeIndex entry.numericIndexType ++
    optionalField "stringIndexType" writeIndex entry.stringIndexType
  | _ => []

def writeEntry (writeNumber : Double → Json) (e : Entry) : Json :=
  .object (("type", .string e.tag) :: e.fields writeNumber)

def writeWith (writeNumber : Double → Json) (d : Document) : Json :=
  .object [("types", .array (d.types.toList.map (writeEntry writeNumber))), ("root", writeIndex d.root)]

/-- A document in canonical form. Numbers are written with the fewest digits that are nearest to them alone. -/
def toJson (d : Document) : Json := d.writeWith fun x => .number (.ofDouble x)

end TypeContracts.Document
