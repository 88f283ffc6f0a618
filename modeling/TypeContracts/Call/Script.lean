import TypeContracts.Failure
import TypeContracts.Value.Basic

/-!
# Function bodies

A function body is native code. All that the library sees of it is which requests it makes, one after the
other and each depending on the answers so far, and what it returns in the end. A script is such a body as a
tree of requests; it may stop on a failed request or go on.
-/

namespace TypeContracts

inductive Answer where
  | done
  | verdict (holds : Bool)
  | value (value : Value)
  | type (type : TypeRef)
  | signature (signature : SignatureRef)

/-- What a body is given: the receiver, the arguments, and the number of this run of it, from one. -/
structure Invocation where
  receiver : Value
  arguments : List Value
  ordinal : Nat

mutual

inductive Request where
  | isType (value : Value) (type : TypeRef)
  | assertType (value : Value) (type : TypeRef) (location : Location)
  | isCompatible (source target : TypeRef)
  | areSignaturesCompatible (source target : SignatureRef)
  | registerType (type : TypeRef) (function : FunctionRef)
  | apply (function : FunctionRef) (receiver : Value) (arguments : List Value)
  | callValue (callee receiver : Value) (arguments : List Value)
  | reset
  | addType (descriptor : Descriptor)
  | addSignature (signature : Signature)
  | defineObject (type : TypeRef) (shape : Shape)
  | newArray (elements : List Value)
  | newObject (properties : List (String × Value)) (proto : Option ObjectRef)
  | newFunction (name : Option String) (proto : Option ObjectRef) (body : Invocation → Script)
  | newBuffer (buffer : Buffer)
  | newView (bytes : List UInt8)
  | getProperty (value : Value) (key : String)
  | setProperty (object : ObjectRef) (key : String) (value : Value)
  | setFunctionProperty (function : FunctionRef) (key : String) (value : Value)
  | setElement (array : ArrayRef) (index : Nat) (value : Value)
  | pushElement (array : ArrayRef) (value : Value)

/-- What a body does: requests, and in the end a value or a failure. -/
inductive Script where
  | stop (result : Except Failure Value)
  | ask (request : Request) (next : Except Failure Answer → Script)

end

abbrev Body := Invocation → Script

namespace Script

def ret (v : Value) : Script := stop (.ok v)

def fail (e : Failure) : Script := stop (.error e)

instance : Inhabited Script := ⟨ret .undefined⟩

/-- Makes a request, fails if it fails, and goes on with the value it is answered with. -/
def andThen (request : Request) (next : Value → Script) : Script :=
  ask request fun
    | .ok (.value v) => next v
    | .ok (.verdict holds) => next (.boolean holds)
    | .ok _ => next .undefined
    | .error e => fail e

def request (r : Request) : Script := andThen r ret

end Script

end TypeContracts
