import Std.Data.TreeMap
import TypeContracts.Descriptor.Identity

/-!
# Judgments and their cache

A judgment asks whether one descriptor may stand where another is wanted. Its key is made of identities, not
of structure, and keeps the three sorts of judgment apart.
-/

namespace TypeContracts

inductive JudgmentKind where
  /-- Is the source type assignable to the target type? -/
  | type
  /-- Is the source signature assignable to the target signature? -/
  | signature
  /-- Do the signatures of a function's tag satisfy those of an object type? -/
  | functionTag
deriving DecidableEq, Repr

namespace JudgmentKind

def name : JudgmentKind → String
  | type => "type"
  | signature => "signature"
  | functionTag => "function_tag"

def code : JudgmentKind → Nat
  | type => 0
  | signature => 1
  | functionTag => 2

theorem code_inj {a b : JudgmentKind} (h : a.code = b.code) : a = b := by
  cases a <;> cases b <;> simp_all [code]

end JudgmentKind

inductive Judgment where
  | type (source target : TypeRef)
  | signature (source target : SignatureRef)
  | functionTag (tag target : TypeRef)
deriving DecidableEq, Repr

namespace Judgment

def kind : Judgment → JudgmentKind
  | type .. => .type
  | signature .. => .signature
  | functionTag .. => .functionTag

def source : Judgment → Handle
  | type source _ => .type source
  | signature source _ => .signature source
  | functionTag tag _ => .type tag

def target : Judgment → Handle
  | type _ target => .type target
  | signature _ target => .signature target
  | functionTag _ target => .type target

end Judgment

structure JudgmentKey where
  kind : JudgmentKind
  source : Identity
  target : Identity
deriving DecidableEq, Repr

def JudgmentKey.order : JudgmentKey → JudgmentKey → Ordering :=
  compareLex (compareOn fun k => k.source.number)
    (compareLex (compareOn fun k => k.target.number) (compareOn fun k => k.kind.code))

instance : Ord JudgmentKey := ⟨JudgmentKey.order⟩

instance : Std.TransOrd JudgmentKey :=
  inferInstanceAs (Std.TransCmp (compareLex (compareOn fun k : JudgmentKey => k.source.number)
    (compareLex (compareOn fun k => k.target.number) (compareOn fun k => k.kind.code))))

theorem JudgmentKey.eq_of_order {a b : JudgmentKey} (h : order a b = .eq) : a = b := by
  simp only [order, compareLex_eq_eq, compareOn, Std.LawfulEqOrd.compare_eq_iff_eq] at h
  obtain ⟨ka, ⟨sa⟩, ⟨ta⟩⟩ := a
  obtain ⟨kb, ⟨sb⟩, ⟨tb⟩⟩ := b
  cases h.1
  cases h.2.1
  cases JudgmentKind.code_inj h.2.2
  rfl

instance : Std.LawfulEqOrd JudgmentKey where
  compare_self := Std.ReflCmp.compare_self
  eq_of_compare := JudgmentKey.eq_of_order

structure Cache where
  entries : Std.TreeMap JudgmentKey Bool := ∅
  hits : Nat := 0
  misses : Nat := 0

namespace Cache

instance : Inhabited Cache := ⟨{}⟩

/-- The answer to a judgment, without a record of the question. -/
def peek (c : Cache) (key : JudgmentKey) : Option Bool := c.entries[key]?

/-- The answer to a judgment, counted as a hit or a miss. -/
def lookup (c : Cache) (key : JudgmentKey) : Option Bool × Cache :=
  match c.peek key with
  | some result => (some result, { c with hits := c.hits + 1 })
  | none => (none, { c with misses := c.misses + 1 })

def insert (c : Cache) (key : JudgmentKey) (result : Bool) : Cache :=
  { c with entries := c.entries.insert key result }

def size (c : Cache) : Nat := c.entries.size

def isEmpty (c : Cache) : Bool := c.entries.isEmpty

@[simp]
theorem peek_insert (c : Cache) (key other : JudgmentKey) (result : Bool) :
    (c.insert key result).peek other = if key = other then some result else c.peek other := by
  simp [insert, peek, Std.TreeMap.getElem?_insert]

@[simp]
theorem peek_lookup (c : Cache) (key other : JudgmentKey) : (c.lookup key).2.peek other = c.peek other := by
  unfold lookup
  split <;> rfl

@[simp]
theorem lookup_fst (c : Cache) (key : JudgmentKey) : (c.lookup key).1 = c.peek key := by
  unfold lookup
  split <;> simp_all

end Cache

end TypeContracts
