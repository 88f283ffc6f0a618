import TypeContracts.Descriptor.Catalog
import TypeContracts.Double.Text
import TypeContracts.Text.Layout

/-!
# The text of a type

A named type is its name. An unnamed object type is its members, one a line; where it occurs inside itself it
is a marker. Formatting only reads the catalog.
-/

namespace TypeContracts

/-- Stands for an unnamed object type inside itself. -/
def circularTypeMarker : String := "[circular type]"

/-- The unnamed object types that a formatter is in the middle of. -/
abbrev Visiting := List TypeRef

def openType (t : TypeRef) : StateM Visiting Bool := fun visiting =>
  if t ∈ visiting then (true, visiting) else (false, t :: visiting)

def closeType (t : TypeRef) : StateM Visiting Unit := modify fun visiting => visiting.erase t

/-- Has a type open while its members are written. Inside itself it is a marker. -/
def whileOpen (t : TypeRef) (write : StateM Visiting String) : StateM Visiting String := do
  if ← openType t then return circularTypeMarker
  let text ← write
  closeType t
  return text

/-- Is it an unnamed object type that has its shape, and so written as a block of members? -/
def Descriptor.isBlock : Descriptor → Bool
  | .object none (some _) => true
  | _ => false

namespace Catalog

section
variable {m : Type → Type} [Monad m]

def signatureTextWith (c : Catalog) (typeText : TypeRef → m String) (s : SignatureRef) : m String := do
  let signature := c.signature s
  let parameters ← signature.parameters.mapM typeText
  let rest ← signature.rest.toList.mapM fun t => return "..." ++ (← typeText t) ++ "[]"
  let result ← typeText signature.result
  return "(" ++ ", ".intercalate (parameters ++ rest) ++ ") => " ++ result

def shapeTextWith (c : Catalog) (typeText : TypeRef → m String) (level : Nat) (shape : Shape) : m String := do
  let signatureText := c.signatureTextWith typeText
  let numeric ← shape.numericIndex.toList.mapM fun t => return "[number]: " ++ (← typeText t) ++ ";"
  let string ← shape.stringIndex.toList.mapM fun t => return "[string]: " ++ (← typeText t) ++ ";"
  let calls ← shape.callSignatures.mapM fun s => return (← signatureText s) ++ ";"
  let constructs ← shape.constructSignatures.mapM fun s => return "new " ++ (← signatureText s) ++ ";"
  let properties ← shape.properties.toList.mapM fun (name, property) =>
    return "\"" ++ name ++ "\"" ++ (if property.optional then "?" else "") ++ ": " ++ (← typeText property.type) ++ ","
  return braced level (numeric ++ string ++ calls ++ constructs ++ properties)

def compositeText (typeText : TypeRef → m String) (separator : String) (members : List TypeRef) :
    Option String → m String
  | some name => return name
  | none => return "(" ++ separator.intercalate (← members.mapM typeText) ++ ")"

def descriptorTextWith (c : Catalog) (typeText : Nat → TypeRef → m String) (level : Nat) : Descriptor → m String
  | .any => return "any"
  | .never => return "never"
  | .void => return "undefined"
  | .null => return "null"
  | .boolean => return "boolean"
  | .numeric => return "number"
  | .string => return "string"
  | .booleanLiteral value => return (if value then "true" else "false")
  | .numericLiteral value => return value.text
  | .stringLiteral value => return "'" ++ value ++ "'"
  | .union members name => compositeText (typeText level) " | " members name
  | .intersection members name => compositeText (typeText level) " & " members name
  | .typeParameter name => return name.getD "T"
  | .object (some name) _ => return name
  | .object none none => return "\x7b <undefined> \x7d"
  | .object none (some shape) => c.shapeTextWith (typeText (level + 1)) level shape

end

def typeTextWithin (c : Catalog) : Nat → Nat → TypeRef → StateM Visiting String
  | 0, _, _ => return circularTypeMarker
  | budget + 1, level, t =>
    let write := c.descriptorTextWith (c.typeTextWithin budget) level (c.get t)
    if (c.get t).isBlock then whileOpen t write else write

/-- How deep texts can nest: at most every object type is open at once, and between two of them lies at most
every union and intersection. -/
def textBudget (c : Catalog) : Nat := (c.types.size + 1) * (c.types.size + 2)

def formatType (c : Catalog) (t : TypeRef) : StateM Visiting String := c.typeTextWithin c.textBudget 0 t

def formatSignature (c : Catalog) (s : SignatureRef) : StateM Visiting String := c.signatureTextWith c.formatType s

def typeText (c : Catalog) (t : TypeRef) : String := ((c.formatType t).run []).1

def signatureText (c : Catalog) (s : SignatureRef) : String := ((c.formatSignature s).run []).1

end Catalog

end TypeContracts
