import TypeContracts.Proofs.Engine.Judging

/-!
# The books of an engine

An engine counts the judgments that it computes and those that it assumes, and
its cache counts hits and misses. It does not count the attempts that its guard
denies. A ledger does, and it knows how many judgments are in progress. With
these two numbers the books balance after every entry (`Tick.balanced`).
-/

namespace TypeContracts

open Relation (ReflTransGen)

namespace Cache

variable {c : Cache} {key : JudgmentKey}

theorem lookup_of_some {b : Bool} (h : c.peek key = some b) : (c.lookup key).2 = { c with hits := c.hits + 1 } := by
  simp [lookup, h]

theorem lookup_of_none (h : c.peek key = none) : (c.lookup key).2 = { c with misses := c.misses + 1 } := by
  simp [lookup, h]

theorem size_insert_le (c : Cache) (key : JudgmentKey) (result : Bool) : (c.insert key result).size ≤ c.size + 1 :=
  Std.TreeMap.size_insert_le

end Cache

namespace Engine

variable {e : Engine} {key : JudgmentKey}

theorem asked_of_some {b : Bool} (h : e.cache.peek key = some b) :
    e.asked key = { e with cache := { e.cache with hits := e.cache.hits + 1 } } := by
  rw [asked, Cache.lookup_of_some h]

theorem asked_of_none (h : e.cache.peek key = none) :
    e.asked key = { e with cache := { e.cache with misses := e.cache.misses + 1 } } := by
  rw [asked, Cache.lookup_of_none h]

theorem kept_cases (e : Engine) (key : JudgmentKey) (before : Nat) (b : Bool) :
    e.kept key before b = e ∨ e.kept key before b = { e with cache := e.cache.insert key b } := by
  unfold kept
  split
  · exact .inr rfl
  · exact .inl rfl

end Engine

/-- An engine, how many of its judgments are in progress, and how many attempts its guard has denied since it was
created or reset. -/
structure Ledger where
  engine : Engine
  inProgress : Nat
  denials : Nat

namespace Ledger

def opened (options : Options) : Ledger := ⟨.create options, 0, 0⟩

/-- What is entered in the books: a judgment is found in the cache, assumed, denied or begun, one in progress is
answered or given up, or something happens that is not counted. A reset opens new books. -/
inductive Tick : Ledger → Ledger → Prop
  | found {e n d key b} : e.cache.peek key = some b → Tick ⟨e, n, d⟩ ⟨e.asked key, n, d⟩
  | assumed {e n d key} : e.cache.peek key = none → (e.subtypeGuard.renewed.enter key).1 = .cycle →
      Tick ⟨e, n, d⟩ ⟨{ e.tried key with cycleAssumptions := e.cycleAssumptions + 1 }, n, d⟩
  | denied {e n d key} : e.cache.peek key = none → (e.subtypeGuard.renewed.enter key).1.isExceeded = true →
      Tick ⟨e, n, d⟩ ⟨e.tried key, n, d + 1⟩
  | begun {e n d key} : e.cache.peek key = none → (e.subtypeGuard.renewed.enter key).1 = .entered →
      Tick ⟨e, n, d⟩ ⟨e.begun key, n + 1, d⟩
  | answered {e n d key} (before b) : Tick ⟨e, n + 1, d⟩ ⟨(e.left key).kept key before b, n, d⟩
  | abandoned {e n d key} : Tick ⟨e, n + 1, d⟩ ⟨e.left key, n, d⟩
  | uncounted {e n d} (valueGuard notifies) : Tick ⟨e, n, d⟩ ⟨{ e with valueGuard, notifies }, n, d⟩
  | reset {e d} : Tick ⟨e, 0, d⟩ ⟨e.reset, 0, 0⟩

/-- Every miss has led to a computation, an assumption or a denial, and an answer in the cache or still to come is
that of a computation. -/
structure Balanced (l : Ledger) : Prop where
  misses : l.engine.cache.misses = l.engine.uncachedJudgments + l.engine.cycleAssumptions + l.denials
  entries : l.engine.cache.size + l.inProgress ≤ l.engine.uncachedJudgments

theorem balanced_opened (options : Options) : (opened options).Balanced := ⟨rfl, Nat.le_refl 0⟩

section
variable {l l' : Ledger}

theorem Tick.balanced (h : Tick l l') (hl : l.Balanced) : l'.Balanced := by
  obtain ⟨hmisses, hentries⟩ := hl
  cases h with
  | found hp =>
    rw [Engine.asked_of_some hp]
    exact ⟨hmisses, hentries⟩
  | assumed hp =>
    rw [Engine.tried, Engine.asked_of_none hp]
    refine ⟨?_, hentries⟩
    dsimp only at hmisses ⊢
    omega
  | denied hp =>
    rw [Engine.tried, Engine.asked_of_none hp]
    refine ⟨?_, hentries⟩
    dsimp only at hmisses ⊢
    omega
  | begun hp =>
    rw [Engine.begun, Engine.tried, Engine.asked_of_none hp]
    refine ⟨?_, Nat.succ_le_succ hentries⟩
    dsimp only at hmisses ⊢
    omega
  | @answered e n d key before b =>
    obtain hkept | hkept := (e.left key).kept_cases key before b
    · rw [hkept]
      exact ⟨hmisses, Nat.le_of_succ_le hentries⟩
    · rw [hkept]
      refine ⟨hmisses, ?_⟩
      have hsize := e.cache.size_insert_le key b
      calc (e.cache.insert key b).size + n ≤ e.cache.size + (n + 1) := by omega
        _ ≤ e.uncachedJudgments := hentries
  | abandoned => exact ⟨hmisses, Nat.le_of_succ_le hentries⟩
  | uncounted => exact ⟨hmisses, hentries⟩
  | reset => exact ⟨rfl, Nat.le_refl 0⟩

theorem balanced_of_ticks (h : ReflTransGen Tick l l') (hl : l.Balanced) : l'.Balanced := by
  induction h with
  | refl => exact hl
  | tail _ htick ih => exact htick.balanced ih

end

end Ledger

end TypeContracts
