import TypeContracts.Descriptor.Catalog
import TypeContracts.Engine.Judge

/-!
# Compatibility of types

May a value of the source type stand where the target type is wanted? Each rule is written once, in terms of
the judgments it asks for. A union source needs every member to be accepted, a union target one member that
accepts; object types are related by their members, and parameters in either direction.
-/

namespace TypeContracts.Compatibility

def allOf (checks : List (Check Bool)) : Check Bool := checks.allM id

section
variable (c : Catalog) (ask : Judgment → Check Bool)

/-! ## Signatures -/

/-- Parameters may be related in either direction. -/
def bivariant (a b : TypeRef) : Check Bool := do
  if ← ask (.type a b) then return true
  ask (.type b a)

/-- Source signatures must not want more arguments than the target's callers have to give. A rest parameter
takes the place of the parameters that only the target declares. Results are compared from target to
source. -/
def signatureRule (x y : Signature) : Check Bool :=
  if y.mandatory < x.mandatory then return false
  else allOf [
    (x.parameters.zip y.parameters).allM fun (a, b) => bivariant ask a b,
    match x.rest with
    | none => return true
    | some rest => (y.parameters.drop x.parameters.length).allM fun b => bivariant ask b rest,
    ask (.type y.result x.result)]

def signaturesMatched (wanted offered : List SignatureRef) : Check Bool :=
  wanted.allM fun y => offered.anyM fun x => ask (.signature x y)

def callableRule (own wanted : Shape) : Check Bool := allOf [
  signaturesMatched ask wanted.callSignatures own.callSignatures,
  signaturesMatched ask wanted.constructSignatures own.constructSignatures]

/-! ## Objects -/

/-- A missing property has to be optional, and an optional one cannot stand for one that is required. -/
def propertyRule (source : Shape) (name : String) (wanted : Property) : Check Bool :=
  match source.properties.find? name with
  | none => return wanted.optional
  | some own => if own.optional && !wanted.optional then return false else ask (.type own.type wanted.type)

def indexRule : Option TypeRef → Option TypeRef → Check Bool
  | _, none => return true
  | none, some _ => return false
  | some source, some target => ask (.type source target)

def shapeRule (source target : Shape) : Check Bool := allOf [
  target.properties.toList.allM fun (name, wanted) => propertyRule ask source name wanted,
  signaturesMatched ask target.callSignatures source.callSignatures,
  signaturesMatched ask target.constructSignatures source.constructSignatures,
  indexRule ask source.numericIndex target.numericIndex,
  indexRule ask source.stringIndex target.stringIndex]

/-! ## Types -/

def isUniversal (strict : Bool) (source : Descriptor) : Bool :=
  source.tag.isUniversalSource && (!strict || source.tag == .any)

/-- The rules for a source that is neither universal nor a type parameter nor a union. -/
def targetRule (s t : TypeRef) : Check Bool :=
  match c.get t with
  | .any => return true
  | .boolean => return c.tag s == .boolean || c.tag s == .booleanLiteral
  | .numeric => return c.tag s == .numeric || c.tag s == .numericLiteral
  | .string => return c.tag s == .string || c.tag s == .stringLiteral
  | .booleanLiteral expected =>
    match c.get s with
    | .booleanLiteral actual => return actual == expected
    | _ => return false
  | .numericLiteral expected =>
    match c.get s with
    | .numericLiteral actual => return actual.equals expected
    | _ => return false
  | .stringLiteral expected =>
    match c.get s with
    | .stringLiteral actual => return actual == expected
    | _ => return false
  | .void => return c.tag s == .void
  | .null => return c.tag s == .null
  | .never => return c.tag s == .never
  | .intersection members _ => members.allM fun member => ask (.type s member)
  | .union members _ => members.anyM fun member => ask (.type s member)
  | .typeParameter _ => throw .unsupportedTypeParameter
  | .object .. => do
    let target ← Check.ofExcept (c.shape t)
    match c.get s with
    | .intersection .. => throw .unsupportedIntersectionSource
    | .object .. => shapeRule ask (← Check.ofExcept (c.shape s)) target
    | _ => return false

def typeRule (strict : Bool) (s t : TypeRef) : Check Bool :=
  if isUniversal strict (c.get s) then return true
  else match c.get s with
    | .typeParameter _ => throw .unsupportedTypeParameter
    | .union members _ => members.allM fun member => ask (.type member t)
    | _ => targetRule c ask s t

def rule (strict : Bool) : Judgment → Check Bool
  | .type s t => typeRule c ask strict s t
  | .signature x y => signatureRule ask (c.signature x) (c.signature y)
  | .functionTag tag target => do
    let own ← Check.ofExcept (c.shape tag)
    callableRule ask own (← Check.ofExcept (c.shape target))

end

/-- Does the judgment relate a type or a signature to itself? It then holds without further question. -/
def isReflexive : Judgment → Bool
  | .type s t => s == t
  | .signature x y => x == y
  | .functionTag .. => false

def resolveWithin (c : Catalog) (strict : Bool) : Nat → Judgment → Check Bool
  | 0, j => if isReflexive j then return true else Check.judge j (throw (.recursionLimit .relatingTypes))
  | budget + 1, j =>
    if isReflexive j then return true
    else Check.judge j (rule c (resolveWithin c strict budget) strict j)

/-- Decides a judgment. The guard allows no deeper nesting than its limit, which is budget enough. -/
def resolve (c : Catalog) (j : Judgment) : Check Bool := do
  let options := (← get).engine.options
  resolveWithin c options.strictNullableSources options.subtypeProfile.limits.maxDepth.toNat j

def isCompatible (c : Catalog) (source target : TypeRef) : Check Bool := resolve c (.type source target)

def areSignaturesCompatible (c : Catalog) (source target : SignatureRef) : Check Bool :=
  resolve c (.signature source target)

def tagMatches (c : Catalog) (tag target : TypeRef) : Check Bool := resolve c (.functionTag tag target)

end TypeContracts.Compatibility
