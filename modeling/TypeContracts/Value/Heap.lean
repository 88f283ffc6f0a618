import TypeContracts.Call.Script

/-!
# The heap of values

Objects and functions have own properties and inherit those of their prototype chain; the nearest one counts.
Arrays and buffers have a length and elements under the decimal text of their index, views a byte length.
-/

namespace TypeContracts

structure Object where
  properties : Members Value := ∅
  proto : Option ObjectRef := none

instance : Inhabited Object := ⟨{}⟩

/-- A callable value. The tag is the object type that its calls are checked against. -/
structure Function where
  name : Option String := none
  tag : Option TypeRef := none
  properties : Members Value := ∅
  proto : Option ObjectRef := none
  body : Body := fun _ => .ret .undefined
  runs : Nat := 0

instance : Inhabited Function := ⟨{}⟩

structure Heap where
  arrays : Array (Array Value) := #[]
  objects : Array Object := #[]
  functions : Array Function := #[]
  buffers : Array Buffer := #[]
  views : Array (List UInt8) := #[]

namespace Heap

instance : Inhabited Heap := ⟨{}⟩

def elements (h : Heap) (r : ArrayRef) : Array Value := h.arrays.getD r.index #[]

def object (h : Heap) (r : ObjectRef) : Object := h.objects.getD r.index default

def function (h : Heap) (r : FunctionRef) : Function := h.functions.getD r.index default

def buffer (h : Heap) (r : BufferRef) : Buffer := h.buffers.getD r.index ⟨.uint8, #[]⟩

def bytes (h : Heap) (r : ViewRef) : List UInt8 := h.views.getD r.index []

/-! ## Allocation and writing -/

def newArray (h : Heap) (elements : List Value) : ArrayRef × Heap :=
  (⟨h.arrays.size⟩, { h with arrays := h.arrays.push elements.toArray })

def newObject (h : Heap) (properties : Members Value) (proto : Option ObjectRef) : ObjectRef × Heap :=
  (⟨h.objects.size⟩, { h with objects := h.objects.push { properties, proto } })

def newFunction (h : Heap) (name : Option String) (proto : Option ObjectRef) (body : Body) :
    FunctionRef × Heap :=
  (⟨h.functions.size⟩, { h with functions := h.functions.push { name, proto, body } })

def newBuffer (h : Heap) (b : Buffer) : BufferRef × Heap :=
  (⟨h.buffers.size⟩, { h with buffers := h.buffers.push b })

def newView (h : Heap) (bytes : List UInt8) : ViewRef × Heap :=
  (⟨h.views.size⟩, { h with views := h.views.push bytes })

def setProperty (h : Heap) (r : ObjectRef) (key : String) (v : Value) : Heap :=
  { h with objects := h.objects.modify r.index fun o => { o with properties := o.properties.insert key v } }

def modifyFunction (h : Heap) (r : FunctionRef) (f : Function → Function) : Heap :=
  { h with functions := h.functions.modify r.index f }

def setFunctionProperty (h : Heap) (r : FunctionRef) (key : String) (v : Value) : Heap :=
  h.modifyFunction r fun f => { f with properties := f.properties.insert key v }

def setTag (h : Heap) (r : FunctionRef) (tag : TypeRef) : Heap :=
  h.modifyFunction r fun f => { f with tag := some tag }

def countRun (h : Heap) (r : FunctionRef) : Heap :=
  h.modifyFunction r fun f => { f with runs := f.runs + 1 }

/-- Writes an element. Elements between the old end and the new one are undefined. -/
def setElement (h : Heap) (r : ArrayRef) (index : Nat) (v : Value) : Heap :=
  { h with arrays := h.arrays.modify r.index fun elements =>
      let padded := elements ++ Array.replicate (index + 1 - elements.size) Value.undefined
      padded.setIfInBounds index v }

def pushElement (h : Heap) (r : ArrayRef) (v : Value) : Heap :=
  { h with arrays := h.arrays.modify r.index fun elements => elements.push v }

/-! ## Properties -/

def chainWithin (h : Heap) : Nat → Option ObjectRef → List Object
  | 0, _ => []
  | _ + 1, none => []
  | budget + 1, some r => h.object r :: h.chainWithin budget (h.object r).proto

def chain (h : Heap) (start : Option ObjectRef) : List Object := h.chainWithin (h.objects.size + 1) start

/-- Own properties and, after them, the inherited ones that they do not hide. -/
def inherit (own : Members Value) (chain : List Object) : Members Value :=
  chain.foldl (fun acc object => acc.union object.properties) own

/-- The index whose decimal text, without sign or leading zeros, is `key`. Indices have 64 bits. -/
def canonicalIndex (key : String) : Option Nat :=
  key.toNat?.filter fun index => index < UInt64.size && toString index == key

inductive Properties where
  | named (members : Members Value)
  | indexed (elements : Array Value)
  | byteLength (length : Nat)
  | none

def Properties.get? : Properties → String → Option Value
  | named members, key => members.find? key
  | indexed elements, key =>
    if key = "length" then some (.number (.ofNat elements.size))
    else (canonicalIndex key).bind (elements[·]?)
  | byteLength length, key => if key = "byteLength" then some (.number (.ofNat length)) else Option.none
  | none, _ => Option.none

def properties (h : Heap) : Value → Properties
  | .object r => .named (inherit (h.object r).properties (h.chain (h.object r).proto))
  | .function r => .named (inherit (h.function r).properties (h.chain (h.function r).proto))
  | .array r => .indexed (h.elements r)
  | .buffer r => .indexed ((h.buffer r).elements.map Value.number)
  | .view r => .byteLength (h.bytes r).length
  | _ => .none

/-- The value of a property. A missing one reads as undefined. -/
def get (h : Heap) (v : Value) (key : String) : Value := ((h.properties v).get? key).getD .undefined

def has (h : Heap) (v : Value) (key : String) : Bool := ((h.properties v).get? key).isSome

/-! ## JSON -/

mutual

/-- The value of a JSON value, newly allocated. Of members with one name the last one counts. -/
def ofJson (h : Heap) : Json → Value × Heap
  | .null => (.null, h)
  | .bool b => (.boolean b, h)
  | .number n => (.number n.toDouble, h)
  | .string s => (.string s, h)
  | .array elements =>
    let (values, h) := h.ofJsonList elements
    let (r, h) := h.newArray values
    (.array r, h)
  | .object members =>
    let (properties, h) := h.ofJsonMembers members
    let (r, h) := h.newObject (.ofList properties) none
    (.object r, h)

def ofJsonList (h : Heap) : List Json → List Value × Heap
  | [] => ([], h)
  | x :: rest =>
    let (v, h) := h.ofJson x
    let (vs, h) := h.ofJsonList rest
    (v :: vs, h)

def ofJsonMembers (h : Heap) : List (String × Json) → List (String × Value) × Heap
  | [] => ([], h)
  | (name, x) :: rest =>
    let (v, h) := h.ofJson x
    let (vs, h) := h.ofJsonMembers rest
    ((name, v) :: vs, h)

end

end Heap

end TypeContracts
