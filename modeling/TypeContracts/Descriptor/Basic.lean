import TypeContracts.Double.Basic
import TypeContracts.Members

/-!
# Type descriptors

Descriptors and signatures are nodes of a graph and refer to each other by reference: two references are the
same descriptor exactly when they are equal. Only object types can close a cycle, because an object type may
be declared first and given its shape later.
-/

namespace TypeContracts

structure TypeRef where
  index : Nat
deriving DecidableEq, Inhabited, Repr

structure SignatureRef where
  index : Nat
deriving DecidableEq, Inhabited, Repr

structure Property where
  type : TypeRef
  optional : Bool
deriving DecidableEq, Repr

/-- A call or construct signature. Callers may leave out the parameters after the first `mandatory` ones;
`rest` is the type of every argument after the declared parameters. -/
structure Signature where
  parameters : List TypeRef
  mandatory : Nat
  rest : Option TypeRef
  result : TypeRef
deriving DecidableEq, Inhabited, Repr

/-- The type expected of the argument at `index`: the declared parameter, else the rest parameter. -/
def Signature.parameterAt (s : Signature) (index : Nat) : Option TypeRef :=
  s.parameters[index]? <|> s.rest

structure Shape where
  properties : Members Property := ∅
  callSignatures : List SignatureRef := []
  constructSignatures : List SignatureRef := []
  numericIndex : Option TypeRef := none
  stringIndex : Option TypeRef := none

instance : Inhabited Shape := ⟨{}⟩

def Shape.hasSignatures (s : Shape) : Bool := !s.callSignatures.isEmpty || !s.constructSignatures.isEmpty

/-- A type descriptor. An object type without a shape is declared and not yet defined. -/
inductive Descriptor where
  | any
  | never
  | void
  | null
  | boolean
  | numeric
  | string
  | booleanLiteral (value : Bool)
  | numericLiteral (value : Double)
  | stringLiteral (value : String)
  | union (members : List TypeRef) (name : Option String)
  | intersection (members : List TypeRef) (name : Option String)
  | typeParameter (name : Option String)
  | object (name : Option String) (shape : Option Shape)

instance : Inhabited Descriptor := ⟨.never⟩

inductive Tag where
  | any
  | never
  | void
  | null
  | boolean
  | numeric
  | string
  | booleanLiteral
  | numericLiteral
  | stringLiteral
  | union
  | intersection
  | typeParameter
  | object
deriving DecidableEq, Repr

namespace Tag

def name : Tag → String
  | any => "Any"
  | never => "Never"
  | void => "Void"
  | null => "Null"
  | boolean => "Boolean"
  | numeric => "Numeric"
  | string => "String"
  | booleanLiteral => "BooleanLiteral"
  | numericLiteral => "NumericLiteral"
  | stringLiteral => "StringLiteral"
  | union => "Union"
  | intersection => "Intersection"
  | typeParameter => "TypeParameter"
  | object => "Object"

/-- The sorts that every target accepts as a source, unless nullable sources are strict. -/
def isUniversalSource : Tag → Bool
  | void | any | null => true
  | _ => false

def isLiteral : Tag → Bool
  | booleanLiteral | numericLiteral | stringLiteral => true
  | _ => false

end Tag

namespace Descriptor

def tag : Descriptor → Tag
  | any => .any
  | never => .never
  | void => .void
  | null => .null
  | boolean => .boolean
  | numeric => .numeric
  | string => .string
  | booleanLiteral _ => .booleanLiteral
  | numericLiteral _ => .numericLiteral
  | stringLiteral _ => .stringLiteral
  | union .. => .union
  | intersection .. => .intersection
  | typeParameter _ => .typeParameter
  | object .. => .object

end Descriptor

end TypeContracts
