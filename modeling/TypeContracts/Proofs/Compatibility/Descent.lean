import TypeContracts.Proofs.Compatibility.Verdicts
import TypeContracts.Proofs.Descriptor.Reach

/-!
# Judgments that are not met again

A rule asks for judgments on what lies below. In a graph without cycles none of
these leads back to the judgment that is being decided (`not_premise_of_itself`),
and so nothing is assumed on the way to an answer (`resolve_assured`).
-/

namespace TypeContracts.Compatibility

open Relation (TransGen)

/-! ## Premises -/

def Premise (c : Catalog) (j k : Judgment) : Prop := k ∈ premises c j

section
variable {c : Catalog} {roots : Set Handle} {j k : Judgment}

/-- Two below the same handle are less than that handle. -/
noncomputable def weight (c : Catalog) (j : Judgment) : Nat := 2 ^ c.height j.source + 2 ^ c.height j.target

theorem weight_lt (hc : c.Acyclic roots) (hj : j ∈ between (c.reached roots)) (hk : Premise c j k) :
    weight c k < weight c j := by
  have hhalf : ∀ {g h}, g ∈ c.reached roots → h ∈ c.refs g → 2 * 2 ^ c.height h ≤ 2 ^ c.height g := by
    intro g h hg hh
    rw [← Nat.pow_succ']
    exact Nat.pow_le_pow_right Nat.two_pos (hc.height_lt hg hh)
  have hparts : ∀ h, h ∈ c.refs j.source ∨ h ∈ c.refs j.target →
      2 * 2 ^ c.height h ≤ 2 ^ c.height j.source ∨ 2 * 2 ^ c.height h ≤ 2 ^ c.height j.target := by
    intro h hh
    exact hh.imp (hhalf hj.1) (hhalf hj.2)
  have hpos : ∀ g, 0 < 2 ^ c.height g := fun g => Nat.two_pow_pos _
  have hsource := hpos k.source
  have htarget := hpos k.target
  unfold weight
  obtain ⟨hs, ht⟩ | ⟨hs, ht⟩ | ⟨hs, ht⟩ := hk.2
  · have hs := hparts _ hs
    have ht := hparts _ ht
    have hsource' := hpos j.source
    have htarget' := hpos j.target
    omega
  · have hs := hhalf hj.1 hs
    rw [ht]
    omega
  · have ht := hhalf hj.2 ht
    rw [hs]
    omega

theorem not_premise_of_itself (hc : c.Acyclic roots) (hj : j ∈ Judgment.among (c.reached roots)) :
    ¬ TransGen (Premise c) j j := by
  have hclosed : AskClosed c (Judgment.among (c.reached roots)) := askClosed_among Catalog.reached_closed
  have hless : ∀ {k}, TransGen (Premise c) j k → k ∈ Judgment.among (c.reached roots) ∧ weight c k < weight c j := by
    intro k hk
    induction hk with
    | single hk => exact ⟨hclosed j hj hk.1, weight_lt hc (among_subset_between hj) hk⟩
    | tail _ hk ih => exact ⟨hclosed _ ih.1 hk.1, (weight_lt hc (among_subset_between ih.1) hk).trans ih.2⟩
  intro hback
  exact Nat.lt_irrefl _ (hless hback).2

end

/-! ## Assumptions -/

/-- Where only judgments of `X` are in progress, nothing has been assumed on the way from `s` to `s'`. -/
structure Assured (c : Catalog) (strict : Bool) (X : Set Judgment) (s s' : Context) : Prop where
  follows : s.Follows s'
  consistent : Consistent c strict s → s'.identities.HasRoom → Consistent c strict s'
  unassumed : Consistent c strict s → s'.identities.HasRoom → s.inProgress ⊆ X →
    s'.engine.cycleAssumptions = s.engine.cycleAssumptions

section
variable {c : Catalog} {strict : Bool} {X : Set Judgment} {s s₁ s₂ : Context}

theorem Assured.refl (s : Context) : Assured c strict X s s := ⟨.refl s, fun hc _ => hc, fun _ _ _ => rfl⟩

theorem Assured.trans (h₁ : Assured c strict X s s₁) (h₂ : Assured c strict X s₁ s₂) : Assured c strict X s s₂ := by
  have hroom : s₂.identities.HasRoom → s₁.identities.HasRoom := h₂.follows.identities.hasRoom
  refine ⟨h₁.follows.trans h₂.follows, fun hc hr => h₂.consistent (h₁.consistent hc (hroom hr)) hr, fun hc hr hX => ?_⟩
  have hc₁ := h₁.consistent hc (hroom hr)
  have hX₁ : s₁.inProgress ⊆ X := by rwa [hc.inProgress_eq hc₁.identities h₁.follows]
  exact (h₂.unassumed hc₁ hr hX₁).trans (h₁.unassumed hc (hroom hr) hX)

theorem compositional_assured (c : Catalog) (strict : Bool) (X : Set Judgment) :
    Compositional Set.univ fun m : Check Bool => ∀ s, Assured c strict X s (stateAfter (m s)) :=
  compositional_rel Assured.refl Assured.trans

theorem judge_assured {j : Judgment} {compute : Check Bool} (hj : j ∉ X)
    (h : Answers c strict (presumed c strict) j compute)
    (hcompute : ∀ s, Assured c strict (insert j X) s (stateAfter (compute s))) (s : Context) :
    Assured c strict X s (stateAfter (Check.judge j compute s)) := by
  refine ⟨(answers_judge h).follows s, (answers_judge h).consistent, fun hc hroom hX => ?_⟩
  -- while it is computed the judgment is in progress itself
  have hinner : ∀ {key ids journal r}, s.identities.keyed j = (key, ids) →
      (s.engine.subtypeGuard.renewed.enter key).1 = .entered → compute ⟨s.engine.begun key, ids, journal⟩ = r →
      (stateAfter r).identities.HasRoom → (stateAfter r).engine.cycleAssumptions = s.engine.cycleAssumptions := by
    intro key ids journal r hk ha hr hroom
    obtain ⟨hc₁, hprogress, -⟩ := h.entered hc hk ha hr hroom
    have hassured := hcompute ⟨s.engine.begun key, ids, journal⟩
    rw [hr] at hassured
    exact hassured.unassumed hc₁ hroom (hprogress ▸ Set.insert_subset_insert hX)
  have hjudged := Check.judge_judged j compute s
  generalize Check.judge j compute s = r at hjudged hroom ⊢
  cases hjudged with
  | hit journal hk hp => rfl
  | assumed journal hk hp ha =>
    obtain ⟨hids, hs, hkey⟩ := hc.keyed hk hroom
    have hv := Guard.isVisiting_of_cycle ha
    rw [s.engine.subtypeGuard.restored_renewed.visiting hc.synced] at hv
    exact absurd (hX (hc.mem_inProgress hids hs hkey hv)) hj
  | denied journal hk hp ha => rfl
  | computed journal journal' hk hp ha hr => exact (Engine.kept_cycleAssumptions ..).trans (hinner hk ha hr hroom)
  | @failed key ids e s' journal hk hp ha hr => exact hinner (r := .error e s') hk ha hr hroom

/-- The check answers `j`, and assumes nothing if only judgments that have led to `j` are in progress. -/
structure Assures (c : Catalog) (strict : Bool) (j : Judgment) (m : Check Bool) : Prop where
  answers : Answers c strict (granted c strict) j m
  assured : ∀ X, (∀ k ∈ X, TransGen (Premise c) k j) → ∀ s, Assured c strict X s (stateAfter (m s))

theorem assures_judge {j : Judgment} {compute : Check Bool} (hback : ¬ TransGen (Premise c) j j)
    (h : Answers c strict (presumed c strict) j compute)
    (hcompute : ∀ X, (∀ k ∈ X, TransGen (Premise c) k j) →
      ∀ s, Assured c strict (insert j X) s (stateAfter (compute s))) : Assures c strict j (Check.judge j compute) := by
  refine ⟨answers_judge h, fun X hX => judge_assured (fun hj => ?_) h (hcompute X hX)⟩
  exact hback (hX j hj)

theorem assures_resolveWithin {Q : Set Judgment} (hQ : AskClosed c Q) (hback : ∀ j ∈ Q, ¬ TransGen (Premise c) j j)
    (n : Nat) {j : Judgment} (hj : j ∈ Q) : Assures c strict j (resolveWithin c strict n j) := by
  refine resolveWithin_of_judge hQ (fun hr => ⟨answers_reflexive hr, fun _ _ s => .refl s⟩) ?_ ?_ n hj
  · intro j ask hj hr ha
    refine assures_judge (hback j hj) (answers_rule hr fun k hk => (ha k hk).answers) fun X hX => ?_
    refine rule_of_premises (compositional_assured c strict _) strict (fun k hk => ?_) (Set.subset_univ _)
    refine (ha k hk.1).assured _ fun i hi => ?_
    obtain rfl | hi := hi
    · exact .single hk
    · exact (hX i hi).tail hk
  · intro j hj hr
    refine assures_judge (hback j hj) (answers_throw _ j _) fun X _ => ?_
    exact (compositional_assured c strict _).throw (Set.mem_univ _)

end

theorem resolve_unassumed {c : Catalog} {roots : Set Handle} (hc : c.Acyclic roots) {j : Judgment}
    (hj : j ∈ Judgment.among (c.reached roots)) {s : Context}
    (hs : Consistent c s.engine.options.strictNullableSources s) (hidle : s.engine.subtypeGuard.isActive = false)
    (hroom : (stateAfter (resolve c j s)).identities.HasRoom) :
    (stateAfter (resolve c j s)).engine.cycleAssumptions = s.engine.cycleAssumptions := by
  have hassures : Assures c s.engine.options.strictNullableSources j
      (resolveWithin c s.engine.options.strictNullableSources s.engine.options.subtypeProfile.limits.maxDepth.toNat j) :=
    assures_resolveWithin (askClosed_among Catalog.reached_closed) (fun j hj => not_premise_of_itself hc hj) _ hj
  exact (hassures.assured ∅ (by simp) s).unassumed hs hroom (hs.inProgress_empty hidle).subset

end TypeContracts.Compatibility
