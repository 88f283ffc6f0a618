import TypeContracts.Descriptor.Basic
import TypeContracts.Location

/-!
# Failures

A violation says that a value or a call breaks its contract. The other failures say that a question could
not be answered: it reached a construct that has no check at run time, a descriptor that makes no sense, or a
limit; or a call reached something that cannot be called, or a body that threw.
-/

namespace TypeContracts

inductive Malformation where
  /-- An object type was wanted. -/
  | notAnObject (found : Tag)
  | undefinedObject (name : Option String)
  /-- Only object types have members to define. -/
  | cannotDefine (tag : Tag)
  | definedTwice
  | invalidDocument
  | outOfRange (index size : Nat)
  | selfReference (index : Nat)
  | tooManyMandatory (mandatory declared : Nat)
  /-- An object type is met that should have been declared before. -/
  | undeclaredObject (index : Nat)
  /-- A descriptor is used that should have been built before. -/
  | unbuilt (index : Nat)
  /-- An entry is left without a descriptor. -/
  | unresolved
deriving DecidableEq, Repr

def Malformation.message : Malformation → String
  | notAnObject found => s!"expected an object type, found {found.name}"
  | undefinedObject name => "object type " ++ name.getD "<anonymous>" ++ " was declared but never defined"
  | cannotDefine tag => s!"cannot define members on a {tag.name} descriptor"
  | definedTwice => "object type shape defined twice"
  | invalidDocument => "invalid document"
  | outOfRange index size => s!"reference {index} is out of range for a table of {size} descriptors"
  | selfReference index => s!"descriptor {index} refers to itself without passing through an object type"
  | tooManyMandatory mandatory declared =>
    s!"signature requires {mandatory} arguments but declares {declared}"
  | undeclaredObject index => s!"object type {index} was not declared"
  | unbuilt index => s!"descriptor {index} used before it was built"
  | unresolved => "descriptor left unresolved"

inductive Activity where
  | relatingTypes
  | checkingValue
  | callingFunctions
deriving DecidableEq, Repr

def Activity.description : Activity → String
  | relatingTypes => "relating type descriptors"
  | checkingValue => "checking a value against its type"
  | callingFunctions => "calling functions"

structure Violation where
  message : String
  location : Location
deriving DecidableEq, Repr

def Violation.text (v : Violation) : String :=
  if v.location.isUnknown then v.message else v.location.text ++ " " ++ v.message

inductive Failure where
  | violation (cause : Violation)
  | unsupportedTypeParameter
  | unsupportedIntersectionSource
  | malformed (cause : Malformation)
  | recursionLimit (activity : Activity)
  | notCallable (value : String)
  | thrown (message : String)
deriving DecidableEq, Repr

namespace Failure

def message : Failure → String
  | violation cause => cause.text
  | unsupportedTypeParameter => "unsupported: generic type parameters cannot be checked at run time"
  | unsupportedIntersectionSource =>
    "unsupported: intersection source types cannot be related to object types"
  | malformed cause => "malformed type descriptor: " ++ cause.message
  | recursionLimit activity => "recursion limit exceeded while " ++ activity.description
  | notCallable value => "value is not callable: " ++ value
  | thrown text => text

def isViolation : Failure → Bool
  | violation _ => true
  | _ => false

def isUnsupported : Failure → Bool
  | unsupportedTypeParameter | unsupportedIntersectionSource => true
  | _ => false

end Failure

end TypeContracts
