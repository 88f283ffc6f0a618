import Mathlib.Algebra.Ring.Nat
import TypeContracts.Proofs.Engine.Turns
import TypeContracts.Compatibility

/-!
# Work that doubles at every level

On two ladders of which every rung leads to the next one twice, and the last one
back to the first, no yes is kept before the topmost question is answered: each
of them rests on that question, which is still in progress. So every rung
computes the rungs below it twice (`climb`), and the work doubles with each
(`isCompatible_ladders`).
-/

namespace TypeContracts.Compatibility

def twice (t : TypeRef) : Shape where
  properties := .ofList [("left", ⟨t, false⟩), ("right", ⟨t, false⟩)]

def rung (next : TypeRef) : Descriptor := .object none (some (twice next))

/-- Two ladders of `n + 1` rungs, one of even and one of odd descriptors. -/
def ladders (n : Nat) : Catalog where
  types := .ofFn fun i : Fin (2 * (n + 1)) => rung ⟨(i + 2) % (2 * (n + 1))⟩

def level (i : Nat) : Judgment := .type ⟨2 * i⟩ ⟨2 * i + 1⟩

def rungs (n : Nat) : Set Handle := (fun i => .type ⟨i⟩) '' Set.Iio (2 * (n + 1))

section
variable {n i : Nat}

theorem level_injective : Function.Injective level := by
  intro i k h
  have h : 2 * i = 2 * k := by
    injection h with h
    injection h
  omega

theorem level_mem_rungs (hi : i ≤ n) : (level i).source ∈ rungs n ∧ (level i).target ∈ rungs n := by
  refine ⟨⟨2 * i, ?_, rfl⟩, ⟨2 * i + 1, ?_, rfl⟩⟩ <;> simp only [Set.mem_Iio] <;> omega

theorem rungs_finite (n : Nat) : (rungs n).Finite := (Set.finite_Iio _).image _

theorem get_ladders {k : Nat} (hk : k < 2 * (n + 1)) : (ladders n).get ⟨k⟩ = rung ⟨(k + 2) % (2 * (n + 1))⟩ := by
  simp [Catalog.get, ladders, hk]

theorem next_even (i n : Nat) : (2 * i + 2) % (2 * (n + 1)) = 2 * ((i + 1) % (n + 1)) := by
  rw [← Nat.mul_mod_mul_left]
  rfl

theorem next_odd (i n : Nat) : (2 * i + 1 + 2) % (2 * (n + 1)) = 2 * ((i + 1) % (n + 1)) + 1 := by
  have hlt : (i + 1) % (n + 1) < n + 1 := Nat.mod_lt _ (Nat.succ_pos n)
  have hdiv := Nat.div_add_mod (i + 1) (n + 1)
  rw [show 2 * i + 1 + 2 = 2 * ((i + 1) % (n + 1)) + 1 + 2 * (n + 1) * ((i + 1) / (n + 1)) by linarith,
    Nat.add_mul_mod_self_left, Nat.mod_eq_of_lt (by omega)]

theorem shapeRule_twice {ask : Judgment → Check Bool} {a b : TypeRef} {s s₁ s₂ : Context}
    (h₁ : ask (.type a b) s = .ok true s₁) (h₂ : ask (.type a b) s₁ = .ok true s₂) :
    shapeRule ask (twice a) (twice b) s = .ok true s₂ := by
  have hleft : propertyRule ask (twice a) "left" ⟨b, false⟩ s = .ok true s₁ := h₁
  have hright : propertyRule ask (twice a) "right" ⟨b, false⟩ s₁ = .ok true s₂ := h₂
  have hproperties : ((twice b).properties.toList.allM fun (name, wanted) =>
      propertyRule ask (twice a) name wanted) s = .ok true s₂ := by
    have htwo : (twice b).properties.toList = [("left", ⟨b, false⟩), ("right", ⟨b, false⟩)] := rfl
    simp only [htwo, List.allM]
    rw [bind_of_ok hleft]
    dsimp only
    rw [bind_of_ok hright]
    rfl
  simp only [shapeRule, allOf, List.allM, id]
  rw [bind_of_ok hproperties]
  rfl

/-- A rung is accepted when the next one is, and that is asked twice. -/
theorem rule_level (hi : i ≤ n) {ask : Judgment → Check Bool} {strict : Bool} {s s₁ s₂ : Context}
    (h₁ : ask (level ((i + 1) % (n + 1))) s = .ok true s₁) (h₂ : ask (level ((i + 1) % (n + 1))) s₁ = .ok true s₂) :
    rule (ladders n) ask strict (level i) s = .ok true s₂ := by
  have hsource := get_ladders (n := n) (k := 2 * i) (by omega)
  have htarget := get_ladders (n := n) (k := 2 * i + 1) (by omega)
  rw [next_even] at hsource
  rw [next_odd] at htarget
  have hrule : rule (ladders n) ask strict (level i) = shapeRule ask (twice ⟨2 * ((i + 1) % (n + 1))⟩)
      (twice ⟨2 * ((i + 1) % (n + 1)) + 1⟩) := by
    simp only [level, rule, typeRule, targetRule, Catalog.shape, hsource, htarget, rung]
    rfl
  rw [hrule]
  exact shapeRule_twice h₁ h₂

end

/-! ## Identities -/

/-- So few identities are in use that all rungs can have theirs. -/
structure Numbers (n : Nat) (ids : Identities) : Prop where
  sound : ids.Sound
  demand : ids.demand (rungs n) ≤ 2 * (n + 1)

section
variable {n i : Nat} {ids later : Identities} {key : JudgmentKey}

theorem numbers_empty (n : Nat) : Numbers n {} := by
  refine ⟨Identities.sound_empty, ?_⟩
  have hle : { g ∈ rungs n | ({} : Identities).find? g = none }.ncard ≤ (rungs n).ncard :=
    Set.ncard_le_ncard (fun _ h => h.1) (rungs_finite n)
  have hcard : (rungs n).ncard ≤ 2 * (n + 1) := by
    refine (Set.ncard_image_le (Set.finite_Iio _)).trans_eq ?_
    rw [← Finset.coe_range, Set.ncard_coe_finset, Finset.card_range]
  exact (Nat.zero_add _).trans_le (hle.trans hcard)

section
variable (h : Numbers n ids) (hn : n < 10000)
include h hn

theorem Numbers.hasRoom : ids.HasRoom := by
  have hdemand : ids.demand (rungs n) ≤ 2 * (n + 1) := h.demand
  have hnext : ids.next.toNat = ids.assigned.size := h.sound.next
  simp only [Identities.demand] at hdemand
  simp only [Identities.HasRoom, UInt32.size]
  omega

theorem Numbers.assign {g : Handle} (hg : g ∈ rungs n) :
    Numbers n (ids.assign g).2 ∧ (ids.assign g).2.find? g = some (ids.assign g).1 := by
  have hdemand := h.demand
  obtain ⟨hfound, hsame⟩ | ⟨hlost, -⟩ := Identities.demand_assign (rungs_finite n) ids hg
  · exact ⟨⟨h.sound.assign_of_hasRoom (h.hasRoom hn), hsame.trans_le hdemand⟩, hfound⟩
  · simp only [UInt32.size] at hlost
    omega

theorem Numbers.keyed (hi : i ≤ n) (hk : ids.keyed (level i) = (key, later)) :
    Numbers n later ∧ later.IsKey key (level i) ∧ ids.Grows later := by
  obtain ⟨hsource, htarget⟩ := level_mem_rungs hi
  obtain ⟨h₁, hfound₁⟩ := h.assign hn hsource
  obtain ⟨h₂, hfound₂⟩ := h₁.assign hn htarget
  have hgrows := ids.grows_keyed (level i)
  cases hk
  exact ⟨h₂, ⟨rfl, (Identities.grows_assign _ _).keeps hfound₁, hfound₂⟩, hgrows⟩

end

end

/-! ## Climbing down -/

/-- The first `i` rungs are in progress, and nothing is known yet. -/
structure Climbing (n i : Nat) (s : Context) : Prop where
  limits : s.engine.subtypeGuard.limits = Profile.subtypeCheck.limits
  synced : s.engine.subtypeGuard.Synced
  depth : s.engine.subtypeGuard.depth = i
  numbers : Numbers n s.identities
  unknown : ∀ key, s.engine.cache.peek key = none
  above : ∀ k < i, ∃ key, s.identities.IsKey key (level k) ∧ s.engine.subtypeGuard.isVisiting key = true
  only : ∀ key, s.engine.subtypeGuard.isVisiting key = true → ∃ k < i, s.identities.IsKey key (level k)

section
variable {n i : Nat} {s s' : Context} {key : JudgmentKey} {ids : Identities}

/-- Nothing but the count of attempts stands against a question that is not too deep, and that count stops. -/
theorem enter_fst_of_unbounded {g : Guard JudgmentKey} (hlimits : g.limits = Profile.subtypeCheck.limits)
    (hdepth : g.depth < 10000) : (g.enter key).1 = if g.isVisiting key then .cycle else .entered := by
  have hcount : ¬ g.count.limits.maxIterations.toNat < g.count.iterations := by
    simp only [Guard.count, hlimits]
    exact Nat.not_lt.mpr (Nat.min_le_right _ _)
  have hdeep : ¬ g.count.limits.maxDepth.toNat ≤ g.count.depth := by
    simp only [Guard.count, hlimits]
    exact Nat.not_le.mpr hdepth
  rw [Guard.enter_fst, Guard.admission, if_neg hcount, if_neg hdeep]
  rfl

/-- What is in progress at `s` is still so at `s'`, and as little is known. -/
structure Settled (n : Nat) (s s' : Context) : Prop where
  guard : s.engine.subtypeGuard.Restored s'.engine.subtypeGuard
  cache : s'.engine.cache.entries = s.engine.cache.entries
  numbers : Numbers n s'.identities
  identities : s.identities.Grows s'.identities

theorem Settled.trans {s'' : Context} (h : Settled n s s') (h' : Settled n s' s'') : Settled n s s'' :=
  ⟨h.guard.trans h'.guard, h'.cache.trans h.cache, h'.numbers, h.identities.trans h'.identities⟩

theorem Climbing.settled (hs : Climbing n i s) (h : Settled n s s') : Climbing n i s' where
  limits := h.guard.limits.trans hs.limits
  synced := h.guard.synced hs.synced
  depth := (h.guard.depth hs.synced).trans hs.depth
  numbers := h.numbers
  unknown key := by
    rw [Cache.peek, h.cache]
    exact hs.unknown key
  above k hk := by
    obtain ⟨key, hkey, hvisiting⟩ := hs.above k hk
    exact ⟨key, hkey.grows h.identities, (h.guard.visiting hs.synced key).trans hvisiting⟩
  only key hkey := by
    obtain ⟨k, hk, hkey⟩ := hs.only key ((h.guard.visiting hs.synced key).symm.trans hkey)
    exact ⟨k, hk, hkey.grows h.identities⟩

theorem Climbing.enter_fst (hs : Climbing n i s) (hi : i < 10000) (key : JudgmentKey) :
    (s.engine.subtypeGuard.renewed.enter key).1 =
      if s.engine.subtypeGuard.isVisiting key then .cycle else .entered := by
  have hrenewed := s.engine.subtypeGuard.restored_renewed
  rw [← hrenewed.visiting hs.synced]
  refine enter_fst_of_unbounded (hrenewed.limits.trans hs.limits) ?_
  rwa [hrenewed.depth hs.synced, hs.depth]

/-- The next rung is begun. -/
theorem Climbing.begun (hs : Climbing n i s) (hn : n < 10000) (hi : i ≤ n)
    (hk : s.identities.keyed (level i) = (key, ids)) (journal : Log.Journal) :
    (s.engine.subtypeGuard.renewed.enter key).1 = .entered ∧
      Climbing n (i + 1) ⟨s.engine.begun key, ids, journal⟩ := by
  obtain ⟨hnumbers, hkey, hids⟩ := hs.numbers.keyed hn hi hk
  have hnew : s.engine.subtypeGuard.isVisiting key = false := by
    refine Bool.eq_false_iff.mpr fun hvisiting => ?_
    obtain ⟨k, hlt, hk'⟩ := hs.only key hvisiting
    exact hlt.ne (level_injective (hnumbers.sound.eq_of_isKey (hk'.grows hids) hkey))
  have ha : (s.engine.subtypeGuard.renewed.enter key).1 = .entered := by
    rw [hs.enter_fst (by omega), hnew]
    rfl
  have hrenewed := s.engine.subtypeGuard.restored_renewed
  obtain ⟨hlimits, hdepth, hsynced, hvisiting⟩ := Guard.entered ha
  have hvisiting (other : JudgmentKey) : (s.engine.begun key).subtypeGuard.isVisiting other = true ↔
      key = other ∨ s.engine.subtypeGuard.isVisiting other = true := by
    rw [← hrenewed.visiting hs.synced]
    exact hvisiting other
  refine ⟨ha, ?_, hsynced (hrenewed.synced hs.synced), ?_, hnumbers, ?_, ?_, ?_⟩
  · exact hlimits.trans (hrenewed.limits.trans hs.limits)
  · exact hdepth.trans (congrArg (· + 1) ((hrenewed.depth hs.synced).trans hs.depth))
  · intro other
    exact (congrArg (·[other]?) (s.engine.cache.entries_lookup key)).trans (hs.unknown other)
  · intro k hlt
    obtain hlt | rfl := Nat.lt_succ_iff_lt_or_eq.mp hlt
    · obtain ⟨other, hother, hv⟩ := hs.above k hlt
      exact ⟨other, hother.grows hids, (hvisiting other).mpr (.inr hv)⟩
    · exact ⟨key, hkey, (hvisiting key).mpr (.inl rfl)⟩
  · intro other hv
    obtain rfl | hv := (hvisiting other).mp hv
    · exact ⟨i, Nat.lt_succ_self i, hkey⟩
    · obtain ⟨k, hlt, hother⟩ := hs.only other hv
      exact ⟨k, Nat.lt_succ_of_lt hlt, hother.grows hids⟩

end

/-- With `i` rungs in progress the answer is yes, after `cost` judgments were computed and some assumed. -/
def Climbs (n i cost : Nat) (m : Check Bool) : Prop :=
  ∀ s, Climbing n i s → ∃ s', m s = .ok true s' ∧ Settled n s s' ∧
    s'.engine.uncachedJudgments = s.engine.uncachedJudgments + cost ∧
    s.engine.cycleAssumptions < s'.engine.cycleAssumptions

section
variable {n i cost : Nat} {s : Context}

/-- Once all rungs are in progress, the first one is assumed. -/
theorem climbs_assumed (hn : n + 1 < 10000) (compute : Check Bool) :
    Climbs n (n + 1) 0 (Check.judge (level 0) compute) := by
  intro s hs
  obtain ⟨key, hkey, hvisiting⟩ := hs.above 0 (Nat.succ_pos n)
  have ha : (s.engine.subtypeGuard.renewed.enter key).1 = .cycle := by
    rw [hs.enter_fst hn, hvisiting]
    rfl
  rw [Check.judge_run _ _ _ hkey.keyed_eq, hs.unknown key, ha]
  refine ⟨_, rfl, ⟨?_, s.engine.cache.entries_lookup key, hs.numbers, .refl _⟩, rfl, Nat.lt_succ_self _⟩
  exact Engine.restored_tried (by rw [ha]; decide)

theorem climbs_rule (hi : i ≤ n) {ask : Judgment → Check Bool} (strict : Bool)
    (hask : Climbs n (i + 1) cost (ask (level ((i + 1) % (n + 1))))) :
    Climbs n (i + 1) (2 * cost) (rule (ladders n) ask strict (level i)) := by
  intro s hs
  obtain ⟨s₁, h₁, hsettled₁, hcost₁, hassumed₁⟩ := hask s hs
  obtain ⟨s₂, h₂, hsettled₂, hcost₂, hassumed₂⟩ := hask s₁ (hs.settled hsettled₁)
  exact ⟨s₂, rule_level hi h₁ h₂, hsettled₁.trans hsettled₂, by omega, by omega⟩

/-- A rung costs one judgment more than what it takes to compute it. Below the first, its answer is not kept. -/
theorem Climbing.judge (hs : Climbing n i s) (hn : n < 10000) (hi : i ≤ n) {compute : Check Bool}
    (hcompute : Climbs n (i + 1) cost compute) : ∃ s', Check.judge (level i) compute s = .ok true s' ∧
      s'.engine.uncachedJudgments = s.engine.uncachedJudgments + (cost + 1) ∧
      (0 < i → Settled n s s' ∧ s.engine.cycleAssumptions < s'.engine.cycleAssumptions) := by
  rcases hk : s.identities.keyed (level i) with ⟨key, ids⟩
  obtain ⟨ha, hbegun⟩ := hs.begun hn hi hk (s.journal.asked key)
  obtain ⟨s₁, h₁, hsettled, hcost, hassumed⟩ := hcompute _ hbegun
  have hids := (hs.numbers.keyed hn hi hk).2.2
  have hguard : s.engine.subtypeGuard.Restored (s₁.engine.left key).subtypeGuard :=
    s.engine.subtypeGuard.restored_renewed.trans (Guard.restored_leave ha hsettled.guard)
  rw [Check.judge_run _ _ _ hk, hs.unknown key, ha]
  dsimp only
  rw [h₁]
  refine ⟨_, rfl, ?_, fun hpos => ?_⟩
  · rw [Engine.kept_uncachedJudgments, Nat.add_comm cost, ← Nat.add_assoc]
    exact hcost
  · -- the first rung is still in progress, and it has been assumed
    have hactive : (s₁.engine.left key).subtypeGuard.isActive = true := by
      simp only [Guard.isActive, hguard.depth hs.synced, hs.depth, bne_iff_ne]
      omega
    have hkept : (s₁.engine.left key).kept key s.engine.cycleAssumptions true = s₁.engine.left key := by
      have hne : ((s₁.engine.left key).cycleAssumptions == s.engine.cycleAssumptions) = false :=
        beq_false_of_ne hassumed.ne'
      simp [Engine.kept, hactive, hne]
    rw [hkept]
    refine ⟨⟨hguard, ?_, hsettled.numbers, hids.trans hsettled.identities⟩, hassumed⟩
    exact hsettled.cache.trans (s.engine.cache.entries_lookup key)

/-- Computing the rung that is `d` rungs above the last one, which computes the next one twice. -/
theorem climb (hn : n + 1 < 10000) (strict : Bool) (d : Nat) : ∀ i budget, i + d = n → d ≤ budget →
    Climbs n (i + 1) (2 ^ (d + 1) - 2)
      (rule (ladders n) (resolveWithin (ladders n) strict budget) strict (level i)) := by
  induction d with
  | zero =>
    rintro i budget rfl -
    have hfirst : Climbs i (i + 1) 0 (resolveWithin (ladders i) strict budget (level ((i + 1) % (i + 1)))) := by
      rw [Nat.mod_self]
      cases budget <;> exact climbs_assumed hn _
    exact climbs_rule (Nat.le_refl i) strict hfirst
  | succ d ih =>
    rintro i (- | budget) hi hle
    · cases hle
    have hpow : 2 ^ (d + 1 + 1) - 2 = 2 * (2 ^ (d + 1) - 2 + 1) := by
      have hle : 2 ≤ 2 ^ (d + 1) := Nat.le_self_pow (Nat.succ_ne_zero d) 2
      rw [Nat.pow_succ]
      omega
    rw [hpow]
    refine climbs_rule (by omega) strict ?_
    rw [Nat.mod_eq_of_lt (show i + 1 < n + 1 by omega)]
    intro s hs
    have hnext := ih (i + 1) budget (by omega) (Nat.le_of_succ_le_succ hle)
    obtain ⟨s', hrun, hcost, hkept⟩ := hs.judge (by omega) (by omega) hnext
    obtain ⟨hsettled, hassumed⟩ := hkept (Nat.succ_pos i)
    refine ⟨s', ?_, hsettled, hcost, hassumed⟩
    rw [resolveWithin, if_neg (by simp [isReflexive, level])]
    exact hrun

/-- On two ladders the work doubles with every rung. -/
theorem isCompatible_ladders (hn : n + 1 < 10000) (journal : Log.Journal) : ∃ s',
    isCompatible (ladders n) ⟨0⟩ ⟨1⟩ ⟨.create {}, {}, journal⟩ = .ok true s' ∧
      s'.engine.uncachedJudgments = 2 ^ (n + 1) - 1 := by
  have hstart : Climbing n 0 ⟨.create {}, {}, journal⟩ := by
    refine ⟨rfl, rfl, rfl, numbers_empty n, fun _ => ?_, fun _ hk => absurd hk (Nat.not_lt_zero _), fun key hkey => ?_⟩
    · exact Std.TreeMap.getElem?_emptyc
    · exact absurd hkey (by simp [Engine.create, Guard.ofProfile, Guard.isVisiting])
  have hcompute := climb hn false n 0 9999 (Nat.zero_add n) (by omega)
  obtain ⟨s', hrun, hcost, -⟩ := hstart.judge (by omega) (Nat.zero_le n) hcompute
  refine ⟨s', hrun, hcost.trans ?_⟩
  have hle : 2 ≤ 2 ^ (n + 1) := Nat.le_self_pow (Nat.succ_ne_zero n) 2
  change 0 + (2 ^ (n + 1) - 2 + 1) = 2 ^ (n + 1) - 1
  omega

end

end TypeContracts.Compatibility
