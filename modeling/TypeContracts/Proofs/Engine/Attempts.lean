import Mathlib.Data.List.Induction
import TypeContracts.Proofs.Engine.Guards

/-!
# The life of a guard

A guard keeps its questions in progress and their number apart, and its count of
attempts stops at the largest number there is. Over any sequence of operations
that leaves only what is in progress the two stay in step, and the count is the
true one as far as it goes (`Kept.run`). What is in progress is what has been
entered and not left since (`mem_inProgress_run`).
-/

namespace TypeContracts.Guard

variable {κ : Type}

inductive Operation (κ : Type) where
  | enter (key : κ)
  | leave (key : κ)
  | scope (key : κ)
  | reset
deriving DecidableEq, Repr

namespace Operation

def isAttempt : Operation κ → Bool
  | enter _ | scope _ => true
  | leave _ | reset => false

def isReset : Operation κ → Bool
  | reset => true
  | _ => false

end Operation

/-- How many attempts there are since the last reset, or among all if there is none. -/
def attempts (operations : List (Operation κ)) : Nat :=
  (operations.reverse.takeWhile fun x => !x.isReset).countP Operation.isAttempt

theorem attempts_append_singleton (operations : List (Operation κ)) (x : Operation κ) :
    attempts (operations ++ [x]) = if x.isReset then 0 else attempts operations + if x.isAttempt then 1 else 0 := by
  cases x <;> simp [attempts, List.countP_cons, Operation.isReset, Operation.isAttempt]

section
variable [Ord κ] {g : Guard κ} {key : κ} {x : Operation κ} {limits : Limits} {operations : List (Operation κ)}

/-- What a scope answers makes no difference to the guard. -/
def perform (g : Guard κ) : Operation κ → Guard κ
  | .enter key => (g.enter key).2
  | .leave key => g.leave key
  | .scope key => (g.scope key fun _ => ()).2
  | .reset => g.reset

def run (g : Guard κ) (operations : List (Operation κ)) : Guard κ := operations.foldl perform g

def Fits (g : Guard κ) (x : Operation κ) : Prop := ∀ key, x = .leave key → g.isVisiting key = true

def Orderly (g : Guard κ) : List (Operation κ) → Prop
  | [] => True
  | x :: rest => g.Fits x ∧ (g.perform x).Orderly rest

theorem orderly_append {rest : List (Operation κ)} :
    g.Orderly (operations ++ rest) ↔ g.Orderly operations ∧ (g.run operations).Orderly rest := by
  induction operations generalizing g with
  | nil => simp [Orderly, run]
  | cons x operations ih =>
    rw [List.cons_append, Orderly, Orderly, ih, and_assoc]
    rfl

theorem run_append_singleton (g : Guard κ) (operations : List (Operation κ)) (x : Operation κ) :
    g.run (operations ++ [x]) = (g.run operations).perform x := by
  simp [run, List.foldl_append]

def inProgress (g : Guard κ) : Set κ := { key | g.isVisiting key = true }

/-! ## Answers -/

/-- The first of the three reasons for a denial that there is decides the answer. -/
theorem enter_answers (g : Guard κ) (key : κ) :
    let count := (g.enter key).2.iterations
    let answer := (g.enter key).1
    (answer = .iterationExceeded ↔ g.limits.maxIterations.toNat < count) ∧
    (answer = .depthExceeded ↔ count ≤ g.limits.maxIterations.toNat ∧ g.limits.maxDepth.toNat ≤ g.depth) ∧
    (answer = .cycle ↔ count ≤ g.limits.maxIterations.toNat ∧ g.depth < g.limits.maxDepth.toNat ∧
      key ∈ g.inProgress) ∧
    (answer = .entered ↔ count ≤ g.limits.maxIterations.toNat ∧ g.depth < g.limits.maxDepth.toNat ∧
      key ∉ g.inProgress) := by
  have hcount : (g.enter key).2.iterations = g.count.iterations := enter_iterations g key
  intro count answer
  simp only [count, answer, hcount, enter_fst, admission, inProgress, Set.mem_ofPred_eq]
  simp only [show g.count.limits = g.limits from rfl, show g.count.depth = g.depth from rfl,
    show g.count.isVisiting key = g.isVisiting key from rfl]
  by_cases hiterations : g.limits.maxIterations.toNat < g.count.iterations
  · simp [hiterations, Nat.not_le.mpr hiterations]
  · by_cases hdepth : g.limits.maxDepth.toNat ≤ g.depth
    · simp [hiterations, hdepth, Nat.le_of_not_lt hiterations, Nat.not_lt.mpr hdepth]
    · by_cases hkey : g.isVisiting key = true <;>
        simp [hiterations, hdepth, hkey, Nat.le_of_not_lt hiterations, Nat.lt_of_not_le hdepth]

theorem scope_eq {α : Type} (g : Guard κ) (key : κ) (answer : Unit → α) : g.scope key answer =
    if (g.enter key).1 = .entered then (.ok (answer ()), (g.enter key).2.leave key)
    else (.error (g.enter key).1, (g.enter key).2) := by
  unfold scope
  rcases g.enter key with ⟨admission, after⟩
  cases admission <;> rfl

theorem scope_snd {α : Type} (g : Guard κ) (key : κ) (answer : Unit → α) : (g.scope key answer).2 =
    if (g.enter key).1 = .entered then (g.enter key).2.leave key else (g.enter key).2 := by
  rw [scope_eq]
  split <;> rfl

theorem iterations_scope (g : Guard κ) (key : κ) :
    (g.perform (.scope key)).iterations = min (g.iterations + 1) unboundedIterations := by
  rw [perform, scope_snd]
  split
  · exact enter_iterations g key
  · exact enter_iterations g key

/-! ## A budget that is used up -/

theorem limits_perform (g : Guard κ) (x : Operation κ) : (g.perform x).limits = g.limits := by
  cases x with
  | enter key => exact enter_limits g key
  | leave key => rfl
  | scope key =>
    rw [perform, scope_snd]
    split
    · exact enter_limits g key
    · exact enter_limits g key
  | reset => rfl

theorem limits_run (g : Guard κ) (operations : List (Operation κ)) : (g.run operations).limits = g.limits := by
  induction operations generalizing g with
  | nil => rfl
  | cons x operations ih => exact (ih (g.perform x)).trans (limits_perform g x)

theorem iterations_le_perform (hle : g.iterations ≤ unboundedIterations) (hx : x.isReset = false) :
    g.iterations ≤ (g.perform x).iterations ∧ (g.perform x).iterations ≤ unboundedIterations := by
  cases x with
  | enter key =>
    have hcount := enter_iterations g key
    simp only [perform]
    omega
  | leave key => exact ⟨Nat.le_refl _, hle⟩
  | scope key =>
    have hcount := iterations_scope g key
    omega
  | reset => cases hx

theorem iterations_le_run (hle : g.iterations ≤ unboundedIterations) (hno : .reset ∉ operations) :
    g.iterations ≤ (g.run operations).iterations ∧ (g.run operations).iterations ≤ unboundedIterations := by
  induction operations generalizing g with
  | nil => exact ⟨Nat.le_refl _, hle⟩
  | cons x operations ih =>
    simp only [List.mem_cons, not_or] at hno
    obtain ⟨hx, hrest⟩ := hno
    have hreset : x.isReset = false := by cases x <;> simp_all [Operation.isReset]
    obtain ⟨hstep, hle'⟩ := iterations_le_perform hle hreset
    obtain ⟨hrun, hlast⟩ := ih hle' hrest
    exact ⟨hstep.trans hrun, hlast⟩

theorem exhausted_run (h : (g.enter key).1 = .iterationExceeded) (hno : .reset ∉ operations) (other : κ) :
    (((g.enter key).2.run operations).enter other).1 = .iterationExceeded := by
  have hover := (enter_answers g key).1.mp h
  have hle : (g.enter key).2.iterations ≤ unboundedIterations := by
    rw [enter_iterations]
    exact Nat.min_le_right _ _
  obtain ⟨hgrows, hlast⟩ := iterations_le_run hle hno
  rw [(enter_answers _ other).1, enter_iterations, limits_run, enter_limits]
  omega

/-! ## What is in progress -/

theorem inProgress_reset (g : Guard κ) : g.reset.inProgress = ∅ := by
  ext other
  simp [inProgress, reset, isVisiting]

/-- What has been entered and not left since, nor forgotten in a reset. -/
def Entered (limits : Limits) (operations : List (Operation κ)) (key : κ) : Prop :=
  ∃ before after, operations = before ++ .enter key :: after ∧
    ((run { limits } before).enter key).1 = .entered ∧ .leave key ∉ after ∧ .reset ∉ after

/-- The last operation either is the entry, or comes after it and is neither its end nor a reset. -/
theorem entered_append_singleton : Entered limits (operations ++ [x]) key ↔
    (x = .enter key ∧ ((run { limits } operations).enter key).1 = .entered) ∨
      (Entered limits operations key ∧ x ≠ .leave key ∧ x ≠ .reset) := by
  constructor
  · rintro ⟨before, after, heq, henter, hleave, hreset⟩
    obtain rfl | ⟨after, y, rfl⟩ := List.eq_nil_or_concat' after
    · obtain ⟨rfl, hx⟩ := List.append_inj' heq rfl
      exact .inl ⟨List.singleton_inj.mp hx, henter⟩
    · rw [← List.cons_append, ← List.append_assoc] at heq
      obtain ⟨rfl, hx⟩ := List.append_inj' heq rfl
      obtain rfl := List.singleton_inj.mp hx
      simp only [List.mem_append, List.mem_singleton, not_or] at hleave hreset
      exact .inr ⟨⟨before, after, rfl, henter, hleave.1, hreset.1⟩, Ne.symm hleave.2, Ne.symm hreset.2⟩
  · rintro (⟨rfl, henter⟩ | ⟨⟨before, after, rfl, henter, hleave, hreset⟩, hx, hx'⟩)
    · exact ⟨operations, [], rfl, henter, by simp, by simp⟩
    · refine ⟨before, after ++ [x], by simp, henter, ?_, ?_⟩
      · simp [hleave, Ne.symm hx]
      · simp [hreset, Ne.symm hx']

end

section
variable [Ord κ] [Std.TransOrd κ] [Std.LawfulEqOrd κ] {g : Guard κ} {key : κ} {x : Operation κ} {n : Nat}
  {limits : Limits} {operations : List (Operation κ)}

theorem inProgress_enter (g : Guard κ) (key : κ) : (g.enter key).2.inProgress =
    if (g.enter key).1 = .entered then insert key g.inProgress else g.inProgress := by
  split
  · rename_i h
    obtain ⟨-, -, -, hvisiting⟩ := entered h
    ext other
    exact (hvisiting other).trans (or_congr_left eq_comm)
  · rename_i h
    rw [enter_fst] at h
    rw [enter_snd, if_neg h]
    rfl

theorem inProgress_leave (g : Guard κ) (key : κ) : (g.leave key).inProgress = g.inProgress \ {key} := by
  ext other
  exact (isVisiting_leave g key other).trans (and_comm.trans (and_congr_right fun _ => ne_comm))

theorem inProgress_scope {α : Type} (g : Guard κ) (key : κ) (answer : Unit → α) :
    (g.scope key answer).2.inProgress = g.inProgress := by
  rw [scope_snd]
  split
  · rename_i h
    have hnew : key ∉ g.inProgress := ((enter_answers g key).2.2.2.mp h).2.2
    rw [inProgress_leave, inProgress_enter, if_pos h, Set.insert_sdiff_self_of_notMem hnew]
  · rename_i h
    rw [inProgress_enter, if_neg h]

theorem mem_inProgress_run : key ∈ (run { limits } operations).inProgress ↔ Entered limits operations key := by
  induction operations using List.reverseRecOn with
  | nil => simp [run, inProgress, isVisiting, Entered]
  | append_singleton operations x ih =>
    rw [run_append_singleton, entered_append_singleton, ← ih]
    generalize run { limits } operations = g
    cases x with
    | enter k =>
      rw [perform, inProgress_enter]
      by_cases hk : k = key
      · subst hk
        split <;> simp_all
      · split <;> simp_all [Ne.symm hk]
    | leave k =>
      rw [perform, inProgress_leave]
      simp [eq_comm]
    | scope k =>
      rw [perform, inProgress_scope]
      simp
    | reset =>
      rw [perform, inProgress_reset]
      simp

/-! ## Whole lives -/

/-- Depth and questions in progress are in step and within the limit, and `n` attempts have been counted. -/
structure Kept (n : Nat) (g : Guard κ) : Prop where
  synced : g.Synced
  depth : g.depth ≤ g.limits.maxDepth.toNat
  iterations : g.iterations = min n unboundedIterations

theorem Kept.enter (h : Kept n g) (key : κ) : Kept (n + 1) (g.enter key).2 := by
  have hcount : (g.enter key).2.iterations = min (n + 1) unboundedIterations := by
    rw [enter_iterations, h.iterations]
    omega
  by_cases henter : (g.enter key).1 = .entered
  · obtain ⟨hlimits, hdepth, hsynced, -⟩ := entered henter
    refine ⟨hsynced h.synced, ?_, hcount⟩
    rw [hlimits, hdepth]
    exact depth_lt_of_entered henter
  · have hrestored := restored_denied henter
    refine ⟨hrestored.synced h.synced, ?_, hcount⟩
    rw [hrestored.limits, hrestored.depth h.synced]
    exact h.depth

omit [Std.LawfulEqOrd κ] in
theorem Kept.leave (h : Kept n g) (hkey : g.isVisiting key = true) : Kept n (g.leave key) where
  synced := synced_leave h.synced hkey
  depth := (Nat.sub_le _ _).trans h.depth
  iterations := h.iterations

theorem Kept.scope (h : Kept n g) (key : κ) : Kept (n + 1) (g.perform (.scope key)) := by
  rw [perform, scope_snd]
  split
  · rename_i henter
    obtain ⟨-, -, -, hvisiting⟩ := entered henter
    exact (h.enter key).leave ((hvisiting key).mpr (.inl rfl))
  · exact h.enter key

theorem Kept.perform (h : Kept n g) (hfits : g.Fits x) :
    Kept (if x.isReset then 0 else n + if x.isAttempt then 1 else 0) (g.perform x) := by
  cases x with
  | enter key => exact h.enter key
  | leave key => exact h.leave (hfits key rfl)
  | scope key => exact h.scope key
  | reset => exact ⟨synced_reset g, Nat.zero_le _, rfl⟩

theorem Kept.run (h : Orderly { limits } operations) :
    Kept (attempts operations) (run (κ := κ) { limits } operations) := by
  induction operations using List.reverseRecOn with
  | nil => exact ⟨rfl, Nat.zero_le _, rfl⟩
  | append_singleton operations x ih =>
    obtain ⟨hbefore, hx⟩ := orderly_append.mp h
    rw [run_append_singleton, attempts_append_singleton]
    exact (ih hbefore).perform hx.1

/-- Whatever is done with a guard, as long as only questions in progress are left: the depth is the number of
questions in progress and within its limit, every attempt is counted up to the largest number, the first reason for a
denial decides the answer, and only an entry and its end change what is in progress. A budget that is used up stays
so until a reset, and the largest budget is never used up. -/
theorem bookkeeping (limits : Limits) {operations : List (Operation κ)} (h : Orderly { limits } operations) :
    let g := run { limits } operations
    (g.inProgress = { key | Entered limits operations key } ∧ g.inProgress.Finite ∧
      g.inProgress.ncard = g.depth ∧ g.depth ≤ limits.maxDepth.toNat) ∧
    g.iterations = min (attempts operations) (2 ^ 32 - 1) ∧
    (∀ key,
      let count := min (attempts operations + 1) (2 ^ 32 - 1)
      let answer := (g.enter key).1
      (g.enter key).2.iterations = count ∧
      (answer = .iterationExceeded ↔ limits.maxIterations.toNat < count) ∧
      (answer = .depthExceeded ↔ count ≤ limits.maxIterations.toNat ∧ limits.maxDepth.toNat ≤ g.depth) ∧
      (answer = .cycle ↔ count ≤ limits.maxIterations.toNat ∧ g.depth < limits.maxDepth.toNat ∧ key ∈ g.inProgress) ∧
      (answer = .entered ↔ count ≤ limits.maxIterations.toNat ∧ g.depth < limits.maxDepth.toNat ∧
        key ∉ g.inProgress) ∧
      (g.enter key).2.inProgress = if answer = .entered then insert key g.inProgress else g.inProgress) ∧
    (∀ key (α : Type) (answer : Unit → α),
      (g.scope key answer).1 = (if (g.enter key).1 = .entered then .ok (answer ()) else .error (g.enter key).1) ∧
      (g.scope key answer).2 = g.perform (.scope key) ∧ (g.scope key answer).2.inProgress = g.inProgress) ∧
    (∀ key later, (g.enter key).1 = .iterationExceeded → .reset ∉ later →
      ∀ other, (((g.enter key).2.run later).enter other).1 = .iterationExceeded) ∧
    (limits.maxIterations = 0xFFFFFFFF → ∀ key, (g.enter key).1 ≠ .iterationExceeded) := by
  intro g
  have hkept : Kept (attempts operations) g := .run h
  have hlimits : g.limits = limits := limits_run _ operations
  have hanswers := fun key => enter_answers g key
  have hcount : ∀ key, (g.enter key).2.iterations = min (attempts operations + 1) (2 ^ 32 - 1) :=
    fun key => (hkept.enter key).iterations
  simp only [hlimits, hcount] at hanswers
  obtain ⟨hfinite, hcard⟩ := ncard_visiting hkept.synced
  refine ⟨⟨?_, hfinite, hcard, hlimits ▸ hkept.depth⟩, hkept.iterations, fun key => ?_, fun key α answer => ?_, ?_, ?_⟩
  · ext key
    exact mem_inProgress_run
  · obtain ⟨hiteration, hdepth, hcycle, hentered⟩ := hanswers key
    exact ⟨hcount key, hiteration, hdepth, hcycle, hentered, inProgress_enter g key⟩
  · refine ⟨?_, ?_, inProgress_scope g key answer⟩
    · rw [scope_eq]
      split <;> rfl
    · rw [perform, scope_snd, scope_snd]
  · intro key later hover hno other
    exact exhausted_run hover hno other
  · intro hunbounded key hover
    have hlt := (hanswers key).1.mp hover
    rw [hunbounded] at hlt
    exact absurd (Nat.min_le_right _ _) (Nat.not_le.mpr hlt)

end

/-- Two questions may be in progress. The third is denied, the first is left before the second, and the second is
asked again. -/
def crossedQuestions : List (Operation Nat) := [.enter 7, .enter 8, .enter 9, .leave 7, .scope 8]

theorem bookkeeping_crossedQuestions :
    let g := run { limits := ⟨2, 4⟩ } crossedQuestions
    g.inProgress.ncard = 1 ∧ g.iterations = 4 ∧ 7 ∉ g.inProgress ∧ (g.enter 8).1 = .iterationExceeded ∧
      (∀ later, .reset ∉ later → ∀ other, (((g.enter 8).2.run later).enter other).1 = .iterationExceeded) ∧
      (g.reset.enter 8).1 = .entered := by
  intro g
  have horderly : Orderly { limits := ⟨2, 4⟩ } crossedQuestions := by
    refine ⟨nofun, nofun, nofun, ?_, nofun, trivial⟩
    rintro key ⟨⟩
    decide +kernel
  obtain ⟨⟨-, -, hcard, -⟩, hcount, hanswers, -, hover, -⟩ := bookkeeping ⟨2, 4⟩ horderly
  have hdepth : g.depth = 1 := by decide +kernel
  have hleft : ¬ g.isVisiting 7 = true := by decide +kernel
  have hdenied : (g.enter 8).1 = .iterationExceeded := (hanswers 8).2.1.mpr (by decide)
  exact ⟨hcard.trans hdepth, hcount.trans (by decide), hleft, hdenied, fun later => hover 8 later hdenied,
    by decide +kernel⟩

end TypeContracts.Guard
