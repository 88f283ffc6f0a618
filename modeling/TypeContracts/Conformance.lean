import TypeContracts.Compatibility
import TypeContracts.Value.Heap

/-!
# Conformance of values

Does a value have a type? `null` and `undefined` conform to every type. An object type asks for a reference
value with the declared properties; a tagged function has to match its signatures through the tag, and the
elements of arrays and buffers the numeric index type. A check in progress is assumed to succeed.
-/

namespace TypeContracts.Conformance

/-- Tries to begin a value check. When none is in progress the guard starts over. -/
def enterCheck (key : ValueCheck) : Check Admission := modifyGet fun s =>
  let (admission, valueGuard) := s.engine.valueGuard.renewed.enter key
  (admission, { s with engine := { s.engine with valueGuard } })

def leaving (key : ValueCheck) (compute : Check Bool) : Check Bool := fun s =>
  let leave (s : Context) : Context :=
    { s with engine := { s.engine with valueGuard := s.engine.valueGuard.leave key } }
  match compute s with
  | .ok result s => .ok result (leave s)
  | .error e s => .error e (leave s)

def guarded (value : Nat) (t : TypeRef) (compute : Check Bool) : Check Bool := do
  let type ← Check.identity (.type t)
  let key : ValueCheck := ⟨value, type⟩
  match ← enterCheck key with
  | .entered => leaving key compute
  | .cycle =>
    Check.emit (.valueRevisited type)
    return true
  | .depthExceeded | .iterationExceeded => throw (.recursionLimit .checkingValue)

section
variable (c : Catalog) (h : Heap) (ask : Value → TypeRef → Check Bool)

def propertyRule (properties : Heap.Properties) (name : String) (wanted : Property) : Check Bool := do
  let own := properties.get? name
  if ← ask (own.getD .undefined) wanted.type then return wanted.optional || own.isSome
  return false

def indexRule (v : Value) (index : TypeRef) : Check Bool :=
  match v with
  | .buffer r =>
    match c.get index with
    | .numeric => return true
    | .numericLiteral expected => return (h.buffer r).elements.all fun x => x.equals expected
    | _ => return false
  | .array r => (h.elements r).toList.allM fun element => ask element index
  | _ => return true

/-- A tagged function against the signatures of an object type. Other values have been sorted out before. -/
def callableRule (v : Value) (t : TypeRef) : Check Bool :=
  match v with
  | .function r =>
    match (h.function r).tag with
    | some tag => Compatibility.tagMatches c tag t
    | none => return true
  | _ => return true

def objectRule (v : Value) (t : TypeRef) (shape : Shape) : Check Bool :=
  let properties := h.properties v
  Compatibility.allOf [
    shape.properties.toList.allM fun (name, wanted) => propertyRule ask properties name wanted,
    callableRule c h v t,
    match shape.numericIndex with
    | some index => indexRule c h ask v index
    | none => return true]

/-- Only functions satisfy an object type with signatures, and no primitive value satisfies an object type. -/
def referenceRule (v : Value) (t : TypeRef) (shape : Shape) : Check Bool :=
  match v.identity? with
  | none => return false
  | some identity =>
    if shape.hasSignatures && !v.isCallable then return false
    else guarded identity t (objectRule c h ask v t shape)

/-- A value other than `null` and `undefined` against a type. -/
def rule (v : Value) (t : TypeRef) : Check Bool :=
  match c.get t with
  | .never => return false
  | .any => return true
  | .boolean => return v.typeName == "boolean"
  | .numeric => return v.typeName == "number"
  | .string => return v.typeName == "string"
  | .booleanLiteral expected =>
    match v with
    | .boolean actual => return actual == expected
    | _ => return false
  | .numericLiteral expected =>
    match v with
    | .number actual => return actual.equals expected
    | _ => return false
  | .stringLiteral expected =>
    match v with
    | .string actual => return actual == expected
    | _ => return false
  | .void => return false
  | .null => return false
  | .intersection members _ => members.allM fun member => ask v member
  | .union members _ => members.anyM fun member => ask v member
  | .typeParameter _ => throw .unsupportedTypeParameter
  | .object .. => do referenceRule c h ask v t (← Check.ofExcept (c.shape t))

end

def checkWithin (c : Catalog) (h : Heap) : Nat → Value → TypeRef → Check Bool
  | 0, v, _ => if v.isNullish then return true else throw (.recursionLimit .checkingValue)
  | budget + 1, v, t => if v.isNullish then return true else rule c h (checkWithin c h budget) v t

/-- Does a value have a type? Checks of object types nest no deeper than the guard's limit, and between two
of them lies at most every union and intersection of the catalog. -/
def isType (c : Catalog) (h : Heap) (v : Value) (t : TypeRef) : Check Bool := do
  let limits := (← get).engine.options.valueProfile.limits
  checkWithin c h ((limits.maxDepth.toNat + 1) * (c.types.size + 2)) v t

end TypeContracts.Conformance
