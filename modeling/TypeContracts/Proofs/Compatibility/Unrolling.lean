import TypeContracts.Proofs.Compatibility.Rules

/-!
# Judgments unrolled

A judgment is decided by its rule, which asks for judgments that are decided by
theirs. `unrolled` follows the rules so many levels down and there asks `stop`.
A set of judgments that holds what its rules ask for (`AskClosed`) is all that
is ever met on the way, so what `judge` passes on from rule to rule holds of the
whole (`unrolled_of_judge`, `resolveWithin_of_judge`).
-/

namespace TypeContracts.Compatibility

def AskClosed (c : Catalog) (Q : Set Judgment) : Prop := ∀ j ∈ Q, Judgment.among (near c j) ⊆ Q

def between (S : Set Handle) : Set Judgment := { j | j.source ∈ S ∧ j.target ∈ S }

theorem askClosed_univ (c : Catalog) : AskClosed c Set.univ := fun _ _ _ _ => Set.mem_univ _

section
variable {c : Catalog} {S : Set Handle} (hS : ∀ g ∈ S, ∀ g' ∈ c.refs g, g' ∈ S)
include hS

theorem near_subset {j : Judgment} (hj : j ∈ between S) : near c j ⊆ S := by
  intro g hg
  rcases hg with rfl | rfl | hg | hg
  · exact hj.1
  · exact hj.2
  · exact hS _ hj.1 g hg
  · exact hS _ hj.2 g hg

theorem among_near_subset {j : Judgment} (hj : j ∈ between S) : Judgment.among (near c j) ⊆ Judgment.among S := by
  intro k hk
  have hnear := near_subset hS hj
  cases k with
  | functionTag tag target => exact hk
  | _ => exact ⟨hnear hk.1, hnear hk.2⟩

omit hS in
theorem among_subset_between : Judgment.among S ⊆ between S := by
  intro j hj
  cases j with
  | functionTag tag target => exact hj.elim
  | _ => exact hj

theorem askClosed_among : AskClosed c (Judgment.among S) :=
  fun _ hj => among_near_subset hS (among_subset_between hj)

theorem askClosed_between : AskClosed c (between S) :=
  fun _ hj => (among_near_subset hS hj).trans among_subset_between

theorem askClosed_insert {j : Judgment} (hj : j ∈ between S) : AskClosed c (insert j (Judgment.among S)) := by
  intro k hk
  refine Set.Subset.trans ?_ (Set.subset_insert _ _)
  obtain rfl | hk := hk
  · exact among_near_subset hS hj
  · exact askClosed_among hS k hk

end

section
variable (c : Catalog) (strict : Bool) (stop : Judgment → Check Bool)

def unrolled : Nat → Judgment → Check Bool
  | 0, j => stop j
  | n + 1, j => if isReflexive j then return true else Check.judge j (rule c (unrolled n) strict j)

theorem resolveWithin_eq_unrolled (n : Nat) :
    resolveWithin c strict n = unrolled c strict (resolveWithin c strict 0) n := by
  induction n with
  | zero => rfl
  | succ n ih =>
    funext j
    rw [resolveWithin, unrolled, ih]

omit stop in
/-- What decides a judgment that is not reflexive has what all that it may ask has. -/
theorem resolveWithin_eq_judge (n : Nat) {j : Judgment} (hj : isReflexive j = false) {P : Check Bool → Prop}
    (hP : Compositional Set.univ P) (hask : ∀ n k, P (resolveWithin c strict n k)) :
    ∃ m, P m ∧ resolveWithin c strict n j = Check.judge j m := by
  cases n with
  | zero =>
    refine ⟨throw (.recursionLimit .relatingTypes), hP.throw (Set.mem_univ _), ?_⟩
    simp [resolveWithin, hj]
  | succ n =>
    refine ⟨rule c (resolveWithin c strict n) strict j, ?_, ?_⟩
    · exact rule_of_asked hP strict (fun k _ => hask n k) (Set.subset_univ _)
    · simp [resolveWithin, hj]

variable {c strict stop} {P : Judgment → Check Bool → Prop} {Q : Set Judgment} (hQ : AskClosed c Q)
  (hrefl : ∀ {j}, isReflexive j = true → P j (pure true))
  (hjudge : ∀ {j ask}, j ∈ Q → isReflexive j = false → (∀ k ∈ Judgment.among (near c j), P k (ask k)) →
    P j (Check.judge j (rule c ask strict j)))
include hQ hrefl hjudge

theorem unrolled_of_judge (hstop : ∀ j ∈ Q, P j (stop j)) (n : Nat) {j : Judgment} (hj : j ∈ Q) :
    P j (unrolled c strict stop n j) := by
  induction n generalizing j with
  | zero => exact hstop j hj
  | succ n ih =>
    unfold unrolled
    by_cases hr : isReflexive j = true
    · rw [if_pos hr]
      exact hrefl hr
    · rw [if_neg hr]
      exact hjudge hj (Bool.eq_false_iff.mpr hr) fun k hk => ih (hQ j hj hk)

theorem resolveWithin_of_judge
    (hlimit : ∀ j ∈ Q, isReflexive j = false → P j (Check.judge j (throw (.recursionLimit .relatingTypes))))
    (n : Nat) {j : Judgment} (hj : j ∈ Q) : P j (resolveWithin c strict n j) := by
  rw [resolveWithin_eq_unrolled]
  refine unrolled_of_judge hQ hrefl hjudge (fun j hj => ?_) n hj
  unfold resolveWithin
  by_cases hr : isReflexive j = true
  · rw [if_pos hr]
    exact hrefl hr
  · rw [if_neg hr]
    exact hlimit j hj (Bool.eq_false_iff.mpr hr)

end

end TypeContracts.Compatibility
