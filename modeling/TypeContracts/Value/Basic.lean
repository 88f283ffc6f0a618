import TypeContracts.Double.Rounding

/-!
# Values

The dynamically typed values of a running program. Arrays, objects, functions, buffers and views live in a
heap; a value holds a reference to them, and two such values are the same exactly when their references are.
-/

namespace TypeContracts

structure ArrayRef where
  index : Nat
deriving DecidableEq, Repr

structure ObjectRef where
  index : Nat
deriving DecidableEq, Repr

structure FunctionRef where
  index : Nat
deriving DecidableEq, Repr

structure BufferRef where
  index : Nat
deriving DecidableEq, Repr

structure ViewRef where
  index : Nat
deriving DecidableEq, Repr

inductive Value where
  | undefined
  | null
  | boolean (value : Bool)
  | number (value : Double)
  | string (value : String)
  | array (ref : ArrayRef)
  | object (ref : ObjectRef)
  | function (ref : FunctionRef)
  | buffer (ref : BufferRef)
  | view (ref : ViewRef)
deriving Inhabited, Repr

namespace Value

def typeName : Value → String
  | undefined => "undefined"
  | boolean _ => "boolean"
  | number _ => "number"
  | string _ => "string"
  | function _ => "function"
  | null | array _ | object _ | buffer _ | view _ => "object"

def isNullish : Value → Bool
  | undefined | null => true
  | _ => false

def isCallable : Value → Bool
  | function _ => true
  | _ => false

/-- A number that tells reference values apart. Primitive values have none. -/
def identity? : Value → Option Nat
  | array r => some (5 * r.index)
  | object r => some (5 * r.index + 1)
  | function r => some (5 * r.index + 2)
  | buffer r => some (5 * r.index + 3)
  | view r => some (5 * r.index + 4)
  | _ => none

/-- Primitives are equal by value, and references when they refer to the same thing. -/
def strictEquals : Value → Value → Bool
  | undefined, undefined => true
  | null, null => true
  | boolean a, boolean b => a == b
  | number a, number b => a.equals b
  | string a, string b => a == b
  | a, b =>
    match a.identity?, b.identity? with
    | some i, some j => i == j
    | _, _ => false

end Value

inductive ElementKind where
  | int8
  | uint8
  | uint8Clamped
  | int16
  | uint16
  | int32
  | uint32
  | float32
  | float64
deriving DecidableEq, Repr

namespace ElementKind

def all : List ElementKind := [int8, uint8, uint8Clamped, int16, uint16, int32, uint32, float32, float64]

def name : ElementKind → String
  | int8 => "Int8"
  | uint8 => "Uint8"
  | uint8Clamped => "Uint8Clamped"
  | int16 => "Int16"
  | uint16 => "Uint16"
  | int32 => "Int32"
  | uint32 => "Uint32"
  | float32 => "Float32"
  | float64 => "Float64"

def constructorName (k : ElementKind) : String := k.name ++ "Array"

end ElementKind

structure Buffer where
  kind : ElementKind
  elements : Array Double

def Buffer.ofBytes (bytes : List UInt8) : Buffer :=
  ⟨.uint8, (bytes.map fun b => Double.ofNat b.toNat).toArray⟩

end TypeContracts
