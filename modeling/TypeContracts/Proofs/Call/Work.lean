import TypeContracts.Proofs.Call.Ending
import TypeContracts.Proofs.Compatibility.Descent
import TypeContracts.Proofs.Compatibility.Work

/-!
# What one question costs

A new engine has no more answers in its cache after a question than there are
pairs of what can be reached. What it has computed may be more: an answer that
rests on an assumption is not kept, and the same judgment is then computed each
time it is asked for. Where nothing leads back to itself nothing is assumed, and
every judgment is computed once.
-/

namespace TypeContracts

section
variable {options : Options} {ids : Identities} {journal : Log.Journal} {c : Catalog} {source target : TypeRef} {b : Bool}
  {s : Context}

/-- Each assumption costs no more computations than there are pairs. -/
theorem work_bounded (h : Compatibility.isCompatible c source target ⟨.create options, ids, journal⟩ = .ok b s) :
    let roots : Set Handle := {.type source, .type target}
    let pairs := c.typeCount roots * c.typeCount roots + c.signatureCount roots * c.signatureCount roots
    let e := s.engine
    e.cache.size ≤ pairs ∧
    e.uncachedJudgments ≤ e.cache.size + e.cycleAssumptions * pairs ∧
    (ids.Sound → s.identities.HasRoom → c.Acyclic roots →
      e.cycleAssumptions = 0 ∧ e.uncachedJudgments ≤ pairs) := by
  intro roots pairs e
  have hroots : roots.Finite := Set.toFinite _
  have hsource : .type source ∈ roots := .inl rfl
  have hS := Catalog.finite_reached (c := c) hroots
  have hj : Judgment.type source target ∈ Judgment.among (c.reached roots) :=
    ⟨Catalog.mem_reached hsource, Catalog.mem_reached (.inr rfl)⟩
  obtain ⟨hK, hpairs⟩ := Compatibility.among_reached_add_le (c := c) hroots
  have hheld : ∀ s, Compatibility.Numbered
      { j ∈ Judgment.among (c.reached roots) | Compatibility.isReflexive j = false } (c.reached roots) s →
      s.engine.subtypeGuard.depth + s.engine.cache.size ≤ pairs := by
    intro s hs
    exact (hs.held_le hK (Catalog.ncard_reached_pos hroots hsource)).trans hpairs
  have hworks := Compatibility.works_resolve (B := pairs) hS (Compatibility.askClosed_among Catalog.reached_closed)
    Compatibility.among_subset_between (fun s hs => (Nat.le_add_right _ _).trans (hheld s hs)) hj
  obtain ⟨hnumbered, -, hcovers⟩ := (hworks _ (Compatibility.numbered_create hS options ids journal)).ok h
  have hsize : e.cache.size ≤ pairs := (Nat.le_add_left _ _).trans (hheld s hnumbered)
  have hcomputed : e.uncachedJudgments ≤ e.cache.size + e.cycleAssumptions * pairs := by
    have hanswers : e.uncachedJudgments + (0 + 0 * pairs) ≤ 0 + (e.cache.size + e.cycleAssumptions * pairs) :=
      hcovers.answers
    omega
  refine ⟨hsize, hcomputed, fun hsound hroom hacyclic => ?_⟩
  have hnone : e.cycleAssumptions = 0 := by
    have hunassumed := Compatibility.resolve_unassumed hacyclic hj
      (Compatibility.consistent_create hsound options journal) rfl
    rw [show Compatibility.resolve c (.type source target) ⟨.create options, ids, journal⟩ = .ok b s from h] at hunassumed
    exact hunassumed hroom
  refine ⟨hnone, ?_⟩
  rw [hnone, Nat.zero_mul, Nat.add_zero] at hcomputed
  exact hcomputed.trans hsize

end

/-- Types 1 and 3 hold a number, types 2 and 4 hold such a type twice. -/
def twoHalves : Catalog where
  types := #[
    .numeric,
    .object none (some { properties := .ofList [("value", ⟨⟨0⟩, false⟩)] }),
    .object none (some { properties := .ofList [("left", ⟨⟨1⟩, false⟩), ("right", ⟨⟨1⟩, false⟩)] }),
    .object none (some { properties := .ofList [("value", ⟨⟨0⟩, false⟩)] }),
    .object none (some { properties := .ofList [("left", ⟨⟨3⟩, false⟩), ("right", ⟨⟨3⟩, false⟩)] })]

theorem twoHalves_acyclic (roots : Set Handle) : twoHalves.Acyclic roots := by
  let level : Handle → Nat
    | .signature _ => 1
    | .type t => t.index
  refine Catalog.acyclic_of_lt (f := level) fun a b hb => ?_
  match a with
  | .type ⟨0⟩ => cases hb
  | .type ⟨1⟩ | .type ⟨2⟩ | .type ⟨3⟩ | .type ⟨4⟩ =>
    revert b
    decide
  | .type ⟨i + 5⟩ => simp [Catalog.refs, Catalog.get, twoHalves, Descriptor.refs] at hb
  | .signature x =>
    have hrefs : twoHalves.refs (.signature x) = [.type ⟨0⟩] := by
      simp only [Catalog.refs, Catalog.signature, twoHalves, Array.getD]
      rfl
    rw [hrefs, List.mem_singleton] at hb
    rw [hb]
    exact Nat.zero_lt_one

theorem work_bounded_twoHalves :
    let roots : Set Handle := {.type ⟨2⟩, .type ⟨4⟩}
    let result := Compatibility.isCompatible twoHalves ⟨2⟩ ⟨4⟩ ⟨.create {}, {}, {}⟩
    outcome result = .ok true ∧ twoHalves.Acyclic roots ∧ (stateAfter result).engine.uncachedJudgments = 2 ∧
      2 ≤ twoHalves.typeCount roots * twoHalves.typeCount roots +
        twoHalves.signatureCount roots * twoHalves.signatureCount roots := by
  intro roots result
  have hok : outcome result = .ok true := by decide +kernel
  have htwo : (stateAfter result).engine.uncachedJudgments = 2 := by decide +kernel
  have hroom : (stateAfter result).identities.HasRoom := by decide +kernel
  have hrun : Compatibility.isCompatible twoHalves ⟨2⟩ ⟨4⟩ ⟨.create {}, {}, {}⟩ = .ok true (stateAfter result) :=
    outcome_eq_ok.mp hok
  generalize stateAfter result = s at hrun htwo hroom ⊢
  obtain ⟨-, -, hacyclic⟩ := work_bounded hrun
  obtain ⟨-, hle⟩ := hacyclic Identities.sound_empty hroom (twoHalves_acyclic roots)
  exact ⟨hok, twoHalves_acyclic roots, htwo, htwo.ge.trans hle⟩

def fan (name : String) (next : Nat) : Descriptor :=
  .object (some name) (some { properties := .ofList (["a", "b", "c", "d", "e", "f"].map (·, ⟨⟨next⟩, false⟩)) })

/-- Two fans of fans, whose last types lead back to the first. -/
def fans : Catalog where
  types := #[
    fan "S0" 1,
    fan "S1" 2,
    .object (some "S2") (some { properties := .ofList [("back", ⟨⟨0⟩, false⟩)] }),
    fan "T0" 4,
    fan "T1" 5,
    .object (some "T2") (some { properties := .ofList [("back", ⟨⟨3⟩, false⟩)] })]

/-- All answers but the first rest on an assumption, and there are only 36 pairs. -/
theorem work_exceeds_pairs_fans :
    let roots : Set Handle := {.type ⟨0⟩, .type ⟨3⟩}
    let result := Compatibility.isCompatible fans ⟨0⟩ ⟨3⟩ ⟨.create {}, {}, {}⟩
    outcome result = .ok true ∧ (stateAfter result).engine.uncachedJudgments = 43 ∧
      fans.typeCount roots * fans.typeCount roots + fans.signatureCount roots * fans.signatureCount roots ≤ 36 := by
  intro roots result
  have hclosed : fans.Closed := Catalog.closed_of_indices (by decide) (by decide)
  have hroots : ∀ g ∈ roots, fans.Holds g := by
    intro g hg
    rcases hg with rfl | rfl <;> decide
  obtain ⟨htypes, hsignatures⟩ := hclosed.counts_le hroots
  refine ⟨by decide +kernel, by decide +kernel, ?_⟩
  exact Nat.add_le_add (Nat.mul_le_mul htypes htypes) (Nat.mul_le_mul hsignatures hsignatures)

end TypeContracts
