import TypeContracts.Failure

/-!
# Catalogs of descriptors

A catalog holds the descriptors and signatures made so far. It only grows: an entry never changes, except
that a declared object type is given its shape, once. A reference to nothing reads as `never`.
-/

namespace TypeContracts

structure Catalog where
  types : Array Descriptor := #[]
  signatures : Array Signature := #[]

namespace Catalog

instance : Inhabited Catalog := ⟨{}⟩

def get (c : Catalog) (t : TypeRef) : Descriptor := c.types.getD t.index .never

def signature (c : Catalog) (s : SignatureRef) : Signature := c.signatures.getD s.index default

def tag (c : Catalog) (t : TypeRef) : Tag := (c.get t).tag

/-! ## Building -/

/-- Adds a descriptor. It is a new one, whatever the catalog already holds. -/
def add (c : Catalog) (d : Descriptor) : TypeRef × Catalog :=
  (⟨c.types.size⟩, { c with types := c.types.push d })

@[simp]
theorem get_add (c : Catalog) (d : Descriptor) : (c.add d).2.get (c.add d).1 = d := by
  simp [add, get]

theorem get_add_of_lt {c : Catalog} {t : TypeRef} (known : t.index < c.types.size) (d : Descriptor) :
    (c.add d).2.get t = c.get t := by
  simp [add, get, Array.getElem?_push, Nat.ne_of_lt known]

def addSignature (c : Catalog) (s : Signature) : SignatureRef × Catalog :=
  (⟨c.signatures.size⟩, { c with signatures := c.signatures.push s })

def declareObject (c : Catalog) (name : Option String) : TypeRef × Catalog := c.add (.object name none)

def defineObject (c : Catalog) (t : TypeRef) (shape : Shape) : Except Failure Catalog :=
  match c.get t with
  | .object name none => .ok { c with types := c.types.setIfInBounds t.index (.object name (some shape)) }
  | .object _ (some _) => .error (.malformed .definedTwice)
  | d => .error (.malformed (.cannotDefine d.tag))

/-! ## Shapes -/

def shape (c : Catalog) (t : TypeRef) : Except Failure Shape :=
  match c.get t with
  | .object _ (some shape) => .ok shape
  | .object name none => .error (.malformed (.undefinedObject name))
  | d => .error (.malformed (.notAnObject d.tag))

end Catalog

/-! ## Signatures by parts -/

structure Parameter where
  type : TypeRef
  optional : Bool

/-- The parameters before the first optional one. -/
def mandatoryCount (parameters : List Parameter) : Nat := (parameters.takeWhile fun p => !p.optional).length

/-- The signature with the given parameters. Those before the first optional one are mandatory, unless a
number is stated. -/
def Signature.ofParameters (parameters : List Parameter) (mandatory : Option Nat) (rest : Option TypeRef)
    (result : TypeRef) : Signature where
  parameters := parameters.map Parameter.type
  mandatory := mandatory.getD (mandatoryCount parameters)
  rest := rest
  result := result

end TypeContracts
