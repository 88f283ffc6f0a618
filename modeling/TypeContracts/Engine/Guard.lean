import Std.Data.TreeSet

/-!
# Guards against endless recursion

A guard knows which questions are in progress, how deep they nest, and how many were begun since the last
reset. A question that is already in progress is a cycle. Both budgets are tested before that, so an exhausted
guard says so even for a question in progress.
-/

namespace TypeContracts

/-- The number of attempts that is never exceeded: the counter stops there. -/
def unboundedIterations : Nat := UInt32.size - 1

structure Limits where
  maxDepth : UInt32
  maxIterations : UInt32
deriving DecidableEq, Repr

/-- The limits in use. Values nest far deeper than types do. -/
inductive Profile where
  | subtypeCheck
  | valueConformance
  | custom (limits : Limits)
deriving DecidableEq, Repr

def Profile.limits : Profile → Limits
  | subtypeCheck => ⟨10000, 0xFFFFFFFF⟩
  | valueConformance => ⟨1000000, 0xFFFFFFFF⟩
  | custom limits => limits

inductive Admission where
  | entered
  | cycle
  | depthExceeded
  | iterationExceeded
deriving DecidableEq, Repr

namespace Admission

def name : Admission → String
  | entered => "Entered"
  | cycle => "Cycle"
  | depthExceeded => "DepthExceeded"
  | iterationExceeded => "IterationExceeded"

def isExceeded : Admission → Bool
  | depthExceeded | iterationExceeded => true
  | _ => false

end Admission

structure Guard (κ : Type) [Ord κ] where
  limits : Limits
  visiting : Std.TreeSet κ := ∅
  depth : Nat := 0
  iterations : Nat := 0

namespace Guard

variable {κ : Type} [Ord κ]

def ofProfile (p : Profile) : Guard κ := { limits := p.limits }

def isVisiting (g : Guard κ) (key : κ) : Bool := g.visiting.contains key

def isActive (g : Guard κ) : Bool := g.depth != 0

/-- The guard's answer to an attempt that has been counted. -/
def admission (g : Guard κ) (key : κ) : Admission :=
  if g.limits.maxIterations.toNat < g.iterations then .iterationExceeded
  else if g.limits.maxDepth.toNat ≤ g.depth then .depthExceeded
  else if g.isVisiting key then .cycle
  else .entered

def count (g : Guard κ) : Guard κ := { g with iterations := min (g.iterations + 1) unboundedIterations }

def begin (g : Guard κ) (key : κ) : Guard κ :=
  { g with visiting := g.visiting.insert key, depth := g.depth + 1 }

def enter (g : Guard κ) (key : κ) : Admission × Guard κ :=
  match g.count.admission key with
  | .entered => (.entered, g.count.begin key)
  | denied => (denied, g.count)

theorem enter_fst (g : Guard κ) (key : κ) : (g.enter key).1 = g.count.admission key := by
  unfold enter
  split <;> simp_all

/-- Only an attempt that is entered changes what is in progress. -/
theorem enter_snd (g : Guard κ) (key : κ) :
    (g.enter key).2 = if g.count.admission key = .entered then g.count.begin key else g.count := by
  unfold enter
  split <;> simp_all

def leave (g : Guard κ) (key : κ) : Guard κ :=
  { g with visiting := g.visiting.erase key, depth := g.depth - 1 }

def reset (g : Guard κ) : Guard κ := { limits := g.limits }

def scope {α : Type} (g : Guard κ) (key : κ) (answer : Unit → α) : Except Admission α × Guard κ :=
  match g.enter key with
  | (.entered, g) => (.ok (answer ()), g.leave key)
  | (denied, g) => (.error denied, g)

/-- A guard for a new question: an inactive guard starts over. -/
def renewed (g : Guard κ) : Guard κ := if g.isActive then g else g.reset

section
variable [Std.TransOrd κ] [Std.LawfulEqOrd κ]

theorem isVisiting_begin (g : Guard κ) (key other : κ) :
    (g.begin key).isVisiting other = true ↔ key = other ∨ g.isVisiting other = true := by
  simp [begin, isVisiting]

theorem isVisiting_leave (g : Guard κ) (key other : κ) :
    (g.leave key).isVisiting other = true ↔ key ≠ other ∧ g.isVisiting other = true := by
  simp [leave, isVisiting]

end

end Guard

end TypeContracts
