import TypeContracts.Proofs.Call.Exactness
import TypeContracts.Proofs.Compatibility.Ladders
import TypeContracts.Proofs.Conformance.Loosening
import TypeContracts.Proofs.Conformance.Turns

/-!
# What limits do

A limit turns an answer into a failure and does nothing else. What a question
about types computes from scratch is bounded by one limit, unless it is the
number at which attempts are no longer counted, and what is in progress by the
other.
-/

namespace TypeContracts

open Relation (ReflTransGen)

/-- The first run has failed for a limit, or the second has ended in the same way and in the same state, with these
profiles in place of the others. -/
def EndsAlike (p q : Profile) (r r' : EStateM.Result Failure Context Bool) : Prop :=
  Denied r ∨ outcome r' = outcome r ∧ stateAfter r' = (stateAfter r).under p q

theorem Relaxes.endsAlike {m : Check Bool} {p p' q q' : Profile} (hm : Relaxes p' q' m m)
    (hp : p.limits ≤ p'.limits) (hq : q.limits ≤ q'.limits) (s : Context) :
    EndsAlike p' q' (m (s.under p q)) (m (s.under p' q')) := by
  have hs : Context.Loosened p' q' (s.under p q) (s.under p' q') := ⟨rfl, hp, hq, hp, hq⟩
  obtain hdenied | hends := hm _ _ hs
  · exact .inl hdenied
  · obtain ⟨hsame, hafter⟩ := hends.outcome_eq
    exact .inr ⟨hsame, hafter.eq⟩

namespace Compatibility

theorem resolve_of_reflexive (c : Catalog) {j : Judgment} (hj : isReflexive j = true) (s : Context) :
    resolve c j s = .ok true s := by
  change resolveWithin c _ s.engine.options.subtypeProfile.limits.maxDepth.toNat j s = _
  cases s.engine.options.subtypeProfile.limits.maxDepth.toNat <;> simp only [resolveWithin, hj, if_true] <;> rfl

/-- The first judgment that is begun is the first attempt there is. -/
theorem metered_begun {e : Engine} (he : e.subtypeGuard.Empty) {key : JudgmentKey}
    (ha : (e.subtypeGuard.renewed.enter key).1 = .entered) : (e.begun key).Metered e.uncachedJudgments := by
  have hrenewed : e.subtypeGuard.renewed = e.subtypeGuard.reset := by
    have hinactive : e.subtypeGuard.isActive = false := by simp [Guard.isActive, he.1]
    rw [Guard.renewed, hinactive, if_neg Bool.false_ne_true]
  have hle := Guard.iterations_le_of_entered ha
  have hiterations := Guard.enter_iterations e.subtypeGuard.renewed key
  have hlimits := Guard.enter_limits e.subtypeGuard.renewed key
  rw [hrenewed] at hle hiterations hlimits
  have hone : min (e.subtypeGuard.reset.iterations + 1) unboundedIterations = 1 := rfl
  rw [hone] at hle hiterations
  refine .inl ?_
  simp only [Engine.begun, Engine.tried, hrenewed, hiterations, hlimits]
  omega

theorem resolve_metered (c : Catalog) (j : Judgment) {s : Context} (he : s.engine.subtypeGuard.Empty) :
    let e := s.engine
    let e' := (stateAfter (resolve c j s)).engine
    let limit := e.subtypeGuard.limits.maxIterations.toNat
    e'.uncachedJudgments ≤ e.uncachedJudgments + limit ∨
      limit = unboundedIterations ∧ e'.subtypeGuard.iterations = unboundedIterations := by
  intro e e' limit
  have hlimits : e'.subtypeGuard.limits = e.subtypeGuard.limits := (resolve_follows c j s).subtypeGuard.limits
  by_cases hj : isReflexive j = true
  · have heq : e' = e := by simp only [e', resolve_of_reflexive c hj s, stateAfter_ok, e]
    rw [heq]
    exact .inl (Nat.le_add_right _ _)
  obtain ⟨m, hm, heq⟩ := resolve_eq_judge c (Bool.eq_false_iff.mpr hj) s
  suffices hmetered : e'.uncachedJudgments = e.uncachedJudgments ∨ e'.Metered e.uncachedJudgments by
    obtain hsame | hmetered := hmetered
    · exact .inl (by omega)
    · unfold Engine.Metered at hmetered
      rw [hlimits] at hmetered
      dsimp only at hmetered
      omega
  have hsynced := (Guard.empty_iff.mp he).1
  -- what is computed runs with the judgment in progress, so the count of attempts does not start over
  have hinner : ∀ {key ids journal r}, (e.subtypeGuard.renewed.enter key).1 = .entered →
      m ⟨e.begun key, ids, journal⟩ = r → ((stateAfter r).engine.left key).Metered e.uncachedJudgments := by
    intro key ids journal r ha hr
    obtain ⟨-, hdepth, hentered, -⟩ := Guard.entered ha
    have honward := hm ⟨e.begun key, ids, journal⟩
    rw [hr] at honward
    have hturns := honward.turns (hentered (e.subtypeGuard.restored_renewed.synced hsynced))
    rw [show (e.begun key).subtypeGuard.depth = _ from hdepth] at hturns
    have hafter := Engine.metered_of_turns hturns (metered_begun he ha)
    exact hafter
  have hjudged := Check.judge_judged j m s
  simp only [e', heq]
  generalize Check.judge j m s = r at hjudged ⊢
  cases hjudged with
  | hit journal hk hp => exact .inl rfl
  | assumed journal hk hp ha => exact .inl rfl
  | denied journal hk hp ha => exact .inl rfl
  | @computed key ids b s' journal journal' hk hp ha hr =>
    have hleft := hinner ha hr
    obtain hkept | hkept := (s'.engine.left key).kept_cases key s.engine.cycleAssumptions b
    · simp only [stateAfter_ok, hkept]
      exact .inr hleft
    · simp only [stateAfter_ok, hkept]
      exact .inr hleft
  | failed journal hk hp ha hr => exact .inr (hinner ha hr)

end Compatibility

/-- Under limits that are at least as large, what does not fail for a limit ends in the same way and does the same to
the engine. A question about types computes at most as many judgments as attempts are allowed, unless that is the
number at which the count stops, and never are more judgments in progress than may nest. -/
theorem limits_only_deny (c : Catalog) (h : Heap) {s : Context} (hs : s.engine.Unguarded) {p p' q q' : Profile}
    (hp : p.limits ≤ p'.limits) (hq : q.limits ≤ q'.limits) :
    (∀ source target, EndsAlike p' q' (Compatibility.isCompatible c source target (s.under p q))
      (Compatibility.isCompatible c source target (s.under p' q'))) ∧
    (∀ x y, EndsAlike p' q' (Compatibility.areSignaturesCompatible c x y (s.under p q))
      (Compatibility.areSignaturesCompatible c x y (s.under p' q'))) ∧
    (∀ v t, EndsAlike p' q' (Conformance.isType c h v t (s.under p q)) (Conformance.isType c h v t (s.under p' q'))) ∧
    ∀ source target,
      let e := s.engine
      let e' := (stateAfter (Compatibility.isCompatible c source target s)).engine
      let limits := e.subtypeGuard.limits
      (e'.uncachedJudgments ≤ e.uncachedJudgments + limits.maxIterations.toNat ∨
        limits.maxIterations.toNat = unboundedIterations ∧ e'.subtypeGuard.iterations = unboundedIterations) ∧
      ReflTransGen Engine.Turn e e' ∧
      ∀ e₁, ReflTransGen Engine.Turn e e₁ →
        { key | e₁.subtypeGuard.isVisiting key = true }.ncard ≤ limits.maxDepth.toNat := by
  refine ⟨fun source target => (Relaxes.resolve c _).endsAlike hp hq s,
    fun x y => (Relaxes.resolve c _).endsAlike hp hq s, fun v t => (Relaxes.isType c h v t).endsAlike hp hq s, ?_⟩
  intro source target e e' limits
  have htidy := Engine.tidy_of_empty hs.1
  refine ⟨Compatibility.resolve_metered c _ hs.1, (Compatibility.resolve_onward c _ s).path htidy.synced, ?_⟩
  intro e₁ hturns
  have htidy₁ := Engine.tidy_of_turns hturns htidy
  rw [(Guard.ncard_visiting htidy₁.synced).2]
  have hdepth := htidy₁.depth
  rwa [Engine.limits_of_turns hturns] at hdepth

/-- At depth one the list inside cannot be looked at, at depth two it can. -/
theorem limits_only_deny_endlessLists :
    let s := (World.fresh {} .silent endlessLists {}).context
    let ask := Compatibility.isCompatible endlessLists ⟨1⟩ ⟨2⟩
    let tooTight := ask (s.under (.custom ⟨1, 3⟩) .valueConformance)
    let tight := ask (s.under (.custom ⟨2, 3⟩) .valueConformance)
    let loose := ask (s.under .subtypeCheck .valueConformance)
    s.engine.Unguarded ∧ outcome tooTight = .error (.recursionLimit .relatingTypes) ∧ outcome tight = .ok true ∧
      outcome loose = .ok true ∧ stateAfter loose = (stateAfter tight).under .subtypeCheck .valueConformance := by
  intro s ask tooTight tight loose
  have hs : s.engine.Unguarded := by decide +kernel
  have hyes : outcome tight = .ok true := by decide +kernel
  have halike : EndsAlike .subtypeCheck .valueConformance tight loose :=
    (limits_only_deny endlessLists {} hs (by decide) (by decide)).1 ⟨1⟩ ⟨2⟩
  obtain ⟨activity, s₁, hdenied⟩ | ⟨hanswer, hstate⟩ := halike
  · rw [hdenied] at hyes
    cases hyes
  · exact ⟨hs, by decide +kernel, hyes, hanswer.trans hyes, hstate⟩

/-- Two ladders of 33 rungs take more judgments than the largest limit on attempts, which is the one in use unless
another is chosen. -/
theorem judgments_exceed_limit_ladders :
    let c := Compatibility.ladders 32
    let s := (World.fresh {} .silent c {}).context
    let r := Compatibility.isCompatible c ⟨0⟩ ⟨1⟩ s
    let e' := (stateAfter r).engine
    s.engine.Unguarded ∧ s.engine.subtypeGuard.limits.maxIterations = 0xFFFFFFFF ∧ outcome r = .ok true ∧
      e'.uncachedJudgments = 2 ^ 33 - 1 ∧
      ¬ e'.uncachedJudgments ≤ s.engine.uncachedJudgments + s.engine.subtypeGuard.limits.maxIterations.toNat := by
  intro c s r e'
  obtain ⟨s', hrun, hcost⟩ := Compatibility.isCompatible_ladders (n := 32) (by decide) s.journal
  have hr : r = .ok true s' := hrun
  have he : e'.uncachedJudgments = 2 ^ 33 - 1 := by
    simp only [e', hr, stateAfter_ok, hcost]
  refine ⟨by decide +kernel, rfl, by rw [hr]; rfl, he, ?_⟩
  rw [he]
  decide

end TypeContracts
