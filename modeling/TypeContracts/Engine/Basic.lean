import TypeContracts.Engine.Guard
import TypeContracts.Failure
import TypeContracts.Log.Event

/-!
# Engines

An engine is the state behind its answers: the cache of judgments, one guard for judgments and one for value
checks, and counters. Identities are shared by all engines, and so is the journal.
-/

namespace TypeContracts

structure Options where
  /-- Only `any` is a universal source; `void` and `null` are related like any other type. -/
  strictNullableSources : Bool := false
  subtypeProfile : Profile := .subtypeCheck
  valueProfile : Profile := .valueConformance
deriving DecidableEq, Repr

structure ValueCheck where
  value : Nat
  type : Identity
deriving DecidableEq, Repr

def ValueCheck.order : ValueCheck → ValueCheck → Ordering :=
  compareLex (compareOn fun k => k.value) (compareOn fun k => k.type.number)

instance : Ord ValueCheck := ⟨ValueCheck.order⟩

instance : Std.TransOrd ValueCheck :=
  inferInstanceAs (Std.TransCmp (compareLex (compareOn fun k : ValueCheck => k.value)
    (compareOn fun k => k.type.number)))

theorem ValueCheck.eq_of_order {a b : ValueCheck} (h : order a b = .eq) : a = b := by
  simp only [order, compareLex_eq_eq, compareOn, Std.LawfulEqOrd.compare_eq_iff_eq] at h
  obtain ⟨va, ⟨ta⟩⟩ := a
  obtain ⟨vb, ⟨tb⟩⟩ := b
  cases h.1
  cases h.2
  rfl

instance : Std.LawfulEqOrd ValueCheck where
  compare_self := Std.ReflCmp.compare_self
  eq_of_compare := ValueCheck.eq_of_order

structure Engine where
  options : Options
  cache : Cache
  subtypeGuard : Guard JudgmentKey
  valueGuard : Guard ValueCheck
  uncachedJudgments : Nat
  /-- Judgments in progress that were assumed to hold. -/
  cycleAssumptions : Nat
  notifies : Bool

namespace Engine

def create (options : Options) : Engine where
  options := options
  cache := {}
  subtypeGuard := .ofProfile options.subtypeProfile
  valueGuard := .ofProfile options.valueProfile
  uncachedJudgments := 0
  cycleAssumptions := 0
  notifies := false

def reset (e : Engine) : Engine :=
  { e with
    cache := {}
    subtypeGuard := e.subtypeGuard.reset
    valueGuard := e.valueGuard.reset
    uncachedJudgments := 0
    cycleAssumptions := 0 }

end Engine

structure Context where
  engine : Engine
  identities : Identities
  journal : Log.Journal

/-- A check: it may fail, and what it has learned until then is kept. -/
abbrev Check := EStateM Failure Context

namespace Check

def ofExcept {α : Type} : Except Failure α → Check α
  | .ok a => pure a
  | .error e => throw e

def identity (h : Handle) : Check Identity := modifyGet fun s =>
  let (i, identities) := s.identities.assign h
  (i, { s with identities })

def emit (e : Log.Event) : Check Unit := modify fun s => { s with journal := s.journal.record e }

def modifyEngine (f : Engine → Engine) : Check Unit := modify fun s => { s with engine := f s.engine }

/-- Notifies a violation if the engine does, and fails with it. -/
def violate {α : Type} (message : String) (location : Location) : Check α := do
  emit (.violation location)
  modify fun s =>
    if s.engine.notifies then { s with journal := s.journal.notify message location } else s
  throw (.violation ⟨message, location⟩)

end Check

/-! ## Debug text of options -/

def Profile.debugText : Profile → String
  | subtypeCheck => "SubtypeCheck"
  | valueConformance => "ValueConformance"
  | custom limits => Debug.record "Custom" [
      ("max_depth", toString limits.maxDepth.toNat), ("max_iterations", toString limits.maxIterations.toNat)]

def Options.debugText (o : Options) : String :=
  Debug.record "EngineOptions" [
    ("strict_nullable_sources", Debug.bool o.strictNullableSources),
    ("subtype_profile", o.subtypeProfile.debugText),
    ("value_profile", o.valueProfile.debugText)]

end TypeContracts
