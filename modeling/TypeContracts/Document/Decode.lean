import TypeContracts.Descriptor.Catalog
import TypeContracts.Document.Basic

/-!
# From documents to descriptors

Decoding adds one descriptor per entry to a catalog. Object types are declared first, so that every reference
to one can be resolved. Then the other entries are built, members before the unions and intersections that hold
them, which is why a cycle of references has to pass through an object type. In the end every object type is
given its shape.
-/

namespace TypeContracts

/-- The descriptors of a document, indexed like its entries. -/
structure TypeTable where
  types : Array TypeRef
  root : TypeRef

namespace TypeTable

def size (t : TypeTable) : Nat := t.types.size

def get? (t : TypeTable) (index : Nat) : Option TypeRef := t.types[index]?

end TypeTable

namespace Document

/-- What has become of an entry so far. An entry in progress waits for its members. -/
inductive Slot where
  | pending
  | inProgress
  | built (type : TypeRef)
deriving DecidableEq, Repr

structure Decoder where
  catalog : Catalog
  slots : Array Slot

abbrev Building := EStateM Failure Decoder

def setSlot (index : Nat) (slot : Slot) : Building Unit :=
  modify fun s => { s with slots := s.slots.setIfInBounds index slot }

def record (index : Nat) (d : Descriptor) : Building TypeRef := do
  let t ← modifyGet fun s => ((s.catalog.add d).1, { s with catalog := (s.catalog.add d).2 })
  setSlot index (.built t)
  return t

def inRange (size : Nat) (i : EntryIndex) : Building Nat :=
  if i.toNat < size then return i.toNat else throw (.malformed (.outOfRange i.toNat size))

section
variable (types : Array Entry)

/-! ## Building -/

/-- Declares the object type of an entry. Its shape follows when all entries are built. -/
def declare (index : Nat) : Building Unit :=
  match types[index]? with
  | some (.objectType entry) => discard (record index (.object entry.name none))
  | _ => return

def descriptorOf (resolve : EntryIndex → Building TypeRef) (index : Nat) : Entry → Building Descriptor
  | .any => return .any
  | .never => return .never
  | .void => return .void
  | .null => return .null
  | .boolean => return .boolean
  | .numeric => return .numeric
  | .string => return .string
  | .booleanLiteral value => return .booleanLiteral value
  | .numericLiteral value => return .numericLiteral value
  | .stringLiteral value => return .stringLiteral value
  | .union members name => return .union (← members.mapM resolve) name
  | .intersection members name => return .intersection (← members.mapM resolve) name
  | .typeParameter name => return .typeParameter name
  | .objectType _ => throw (.malformed (.undeclaredObject index))

/-- The descriptor of the entry at `index`, built once. The budget exceeds the number of pending entries. -/
def build : Nat → Nat → Building TypeRef
  | 0, index => throw (.malformed (.selfReference index))
  | budget + 1, index => do
    match (← get).slots[index]? with
    | some (.built t) => return t
    | some .inProgress => throw (.malformed (.selfReference index))
    | _ =>
      setSlot index .inProgress
      let resolve (i : EntryIndex) : Building TypeRef := do build budget (← inRange types.size i)
      record index (← descriptorOf resolve index (types.getD index .never))

variable (budget : Nat)

def resolve (i : EntryIndex) : Building TypeRef := do build types budget (← inRange types.size i)

/-! ## Shapes -/

def SignatureEntry.mandatory (s : SignatureEntry) : Nat := (s.mandatoryArgs.map UInt64.toNat).getD s.args.length

def signatureOf (s : SignatureEntry) : Building SignatureRef := do
  let parameters ← s.args.mapM (resolve types budget)
  if parameters.length < s.mandatory then
    throw (.malformed (.tooManyMandatory s.mandatory parameters.length))
  let rest ← s.varargs.mapM (resolve types budget)
  let result ← resolve types budget s.result
  modifyGet fun d =>
    let (x, catalog) := d.catalog.addSignature { parameters, mandatory := s.mandatory, rest, result }
    (x, { d with catalog })

def propertyOf (p : String × PropertyEntry) : Building (String × Property) := do
  return (p.1, { type := ← resolve types budget p.2.type, optional := p.2.optional })

def shapeOf (entry : ObjectEntry) : Building Shape := do
  let properties ← entry.properties.toList.mapM (propertyOf types budget)
  return {
    properties := .ofList properties
    callSignatures := ← entry.callSignatures.mapM (signatureOf types budget)
    constructSignatures := ← entry.constructSignatures.mapM (signatureOf types budget)
    numericIndex := ← entry.numericIndexType.mapM (resolve types budget)
    stringIndex := ← entry.stringIndexType.mapM (resolve types budget) }

def builtType (index : Nat) : Building TypeRef := do
  match (← get).slots[index]? with
  | some (.built t) => return t
  | _ => throw (.malformed (.unbuilt index))

def defineType (t : TypeRef) (shape : Shape) : Building Unit := fun s =>
  match s.catalog.defineObject t shape with
  | .ok catalog => .ok () { s with catalog }
  | .error e => .error e s

/-- Gives the object type of an entry its shape. Other entries are complete already. -/
def define (index : Nat) : Building Unit :=
  match types[index]? with
  | some (.objectType entry) => do
    let shape ← shapeOf types budget entry
    defineType (← builtType index) shape
  | _ => return

end

/-! ## Documents -/

def collect : Building (Array TypeRef) := do
  let types ← (← get).slots.toList.mapM fun
    | .built t => return t
    | _ => throw (.malformed .unresolved)
  return types.toArray

def decodeWithin (budget : Nat) (d : Document) : Building TypeTable := do
  let root ← inRange d.types.size d.root
  (List.range d.types.size).forM (declare d.types)
  (List.range d.types.size).forM fun index => discard (build d.types budget index)
  (List.range d.types.size).forM (define d.types budget)
  let types ← collect
  return { types, root := types.getD root default }

/-- Adds the descriptors of a document to a catalog. An entry waits for others than itself, so there is budget
enough. -/
def decode (d : Document) (c : Catalog) : Except Failure (TypeTable × Catalog) :=
  match d.decodeWithin (d.types.size + 1) { catalog := c, slots := Array.replicate d.types.size .pending } with
  | .ok table s => .ok (table, s.catalog)
  | .error e _ => .error e

end Document

end TypeContracts
