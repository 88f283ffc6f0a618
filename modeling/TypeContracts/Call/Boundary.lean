import TypeContracts.Conformance
import TypeContracts.Value.Text

/-!
# Assertions and call boundaries

An assertion hands its value on or reports a violation. A call of a tagged function is accepted if one of the
tag's signatures, call or construct, accepts the arguments.
-/

namespace TypeContracts

section
variable (c : Catalog) (h : Heap)

/-- Returns the value if it has the type, and else reports a violation at the location. -/
def assertType (v : Value) (t : TypeRef) (location : Location) : Check Value := do
  if ← Conformance.isType c h v t then return v
  Check.violate
    ("Value:\n" ++ h.valueText c v ++ "\nis not assignable to type:\n" ++ c.typeText t) location

/-- Arguments from position `index` on have the types of their parameters. Arguments from the first one
without a parameter on are tolerated. -/
def argumentsConform (s : Signature) (index : Nat) : List Value → Check Bool
  | [] => return true
  | v :: rest =>
    match s.parameterAt index with
    | none => return true
    | some t => do
      if ← Conformance.isType c h v t then argumentsConform s (index + 1) rest
      else return false

def signatureAccepts (s : Signature) (arguments : List Value) : Check Bool :=
  if arguments.length < s.mandatory then return false else argumentsConform c h s 0 arguments

/-- Accepts a call of a function with the given tag, or reports a violation. -/
def checkBoundary (tag : TypeRef) (arguments : List Value) : Check Unit := do
  let shape ← Check.ofExcept (c.shape tag)
  let signatures := shape.callSignatures ++ shape.constructSignatures
  if ← signatures.anyM fun s => signatureAccepts c h (c.signature s) arguments then
    Check.emit (.callAccepted arguments.length)
  else
    Check.emit (.callRejected arguments.length)
    Check.violate
      ("Function:\n" ++ c.typeText tag ++ "\nis not callable with arguments:\n[" ++ h.listText c arguments ++ "]")
      .unknown

end

end TypeContracts
