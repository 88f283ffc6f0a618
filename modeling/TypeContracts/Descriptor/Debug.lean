import TypeContracts.Descriptor.Identity
import TypeContracts.Descriptor.Catalog
import TypeContracts.Double.Text
import TypeContracts.Text.Debug

/-!
# Debug text of a type

Unions and intersections show their members; an object type shows only the names of its properties, because
it may refer to itself.
-/

namespace TypeContracts

/-- The number of an identity, or a question mark where there is none. -/
def Identities.debugText (ids : Identities) (h : Handle) : String :=
  match ids.find? h with
  | some identity => "#" ++ toString identity.number.toNat
  | none => "#?"

namespace Descriptor

def debugName (name : Option String) : String := Debug.option (name.map Debug.quoted)

def debugComposite (members : List String) (name : Option String) : String :=
  Debug.record "CompositeType" [("members", Debug.list members), ("name", debugName name)]

def debugObject (name : Option String) : Option Shape → String
  | none => Debug.record "ObjectType" [("name", debugName name), ("shape", Debug.quoted "<undefined>")]
  | some shape => Debug.record "ObjectType" [
      ("name", debugName name),
      ("properties", Debug.list (shape.properties.names.map Debug.quoted)),
      ("call_signatures", toString shape.callSignatures.length),
      ("construct_signatures", toString shape.constructSignatures.length),
      ("numeric_index", Debug.bool shape.numericIndex.isSome),
      ("string_index", Debug.bool shape.stringIndex.isSome)]

def debugWith (typeText : TypeRef → String) (d : Descriptor) : String :=
  match d with
  | booleanLiteral value => Debug.call d.tag.name (Debug.bool value)
  | numericLiteral value => Debug.call d.tag.name value.debugText
  | stringLiteral value => Debug.call d.tag.name (Debug.quoted value)
  | union members name => Debug.call d.tag.name (debugComposite (members.map typeText) name)
  | intersection members name => Debug.call d.tag.name (debugComposite (members.map typeText) name)
  | typeParameter name => Debug.call d.tag.name (debugName name)
  | object name shape => Debug.call d.tag.name (debugObject name shape)
  | _ => d.tag.name

end Descriptor

def Catalog.debugWithin (c : Catalog) (ids : Identities) : Nat → TypeRef → String
  | 0, t => ids.debugText (.type t)
  | budget + 1, t => ids.debugText (.type t) ++ (c.get t).debugWith (c.debugWithin ids budget)

def Catalog.debugText (c : Catalog) (ids : Identities) (t : TypeRef) : String :=
  c.debugWithin ids (c.types.size + 1) t

end TypeContracts
