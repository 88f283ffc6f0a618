import Std.Data.TreeMap
import TypeContracts.Descriptor.Basic

/-!
# Identities

A descriptor or signature receives its identity, a number from one counter, the first time it takes part in a
judgment, and keeps it. The counter has 32 bits and wraps; its last value marks the absence of an identity, so
a descriptor that draws it stays without one.
-/

namespace TypeContracts

structure Identity where
  number : UInt32
deriving DecidableEq, Inhabited, Repr

namespace Identity

/-- The number that marks the absence of an identity. -/
def invalid : Identity := ⟨0xFFFFFFFF⟩

def isValid (i : Identity) : Bool := i != invalid

end Identity

inductive Handle where
  | type (ref : TypeRef)
  | signature (ref : SignatureRef)
deriving DecidableEq, Repr

/-- Types have even codes and signatures odd ones. -/
def Handle.code : Handle → Nat
  | type ref => 2 * ref.index
  | signature ref => 2 * ref.index + 1

theorem Handle.code_inj {a b : Handle} (h : a.code = b.code) : a = b := by
  cases a <;> cases b <;> simp only [code] at h <;> grind [cases TypeRef, cases SignatureRef]

structure Identities where
  next : UInt32 := 0
  assigned : Std.TreeMap Nat Identity := ∅

namespace Identities

instance : Inhabited Identities := ⟨{}⟩

def find? (ids : Identities) (h : Handle) : Option Identity := ids.assigned[h.code]?

/-- The identity of a handle, drawn from the counter if it has none yet. -/
def assign (ids : Identities) (h : Handle) : Identity × Identities :=
  match ids.find? h with
  | some identity => (identity, ids)
  | none =>
    let fresh : Identity := ⟨ids.next⟩
    let assigned := if fresh.isValid then ids.assigned.insert h.code fresh else ids.assigned
    (fresh, { next := ids.next + 1, assigned })

theorem assign_of_some {ids : Identities} {h : Handle} {i : Identity} (found : ids.find? h = some i) :
    ids.assign h = (i, ids) := by
  simp [assign, found]

/-- A handle keeps its identity. -/
theorem find?_assign_of_some {ids : Identities} {h : Handle} {i : Identity} (found : ids.find? h = some i)
    (other : Handle) : (ids.assign other).2.find? h = some i := by
  cases new : ids.find? other with
  | some j => rw [assign_of_some new]; exact found
  | none =>
    have ne : other.code ≠ h.code := fun e => by rw [Handle.code_inj e, found] at new; cases new
    simp only [assign, new]
    split
    · simpa [find?, Std.TreeMap.getElem?_insert, ne] using found
    · exact found

end Identities

end TypeContracts
