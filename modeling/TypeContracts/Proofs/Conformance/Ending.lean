import TypeContracts.Proofs.Compatibility.Ending
import TypeContracts.Proofs.Conformance.Denials

/-!
# Value checks come to an end

A check of an object type is guarded, and between two of them lie unions and
intersections only, which cannot go on forever where every cycle passes through
an object type (`unrolled_agrees`). Each pair of a reference value and an object
type is in progress once at most, so the limit is met only when there are as many
of them (`Checking.depth_le`).
-/

namespace TypeContracts.Conformance

open Compatibility (Spares)

/-! ## The end of the recursion -/

theorem guarded_congr {value : Nat} {t : TypeRef} {m m' : Check Bool} {s : Context}
    (h : ∀ i ids, s.identities.assign (.type t) = (i, ids) →
      (s.engine.valueGuard.renewed.enter ⟨value, i⟩).1 = .entered →
      m ⟨s.engine.valueTried ⟨value, i⟩, ids, s.journal⟩ = m' ⟨s.engine.valueTried ⟨value, i⟩, ids, s.journal⟩) :
    guarded value t m s = guarded value t m' s := by
  rcases hi : s.identities.assign (.type t) with ⟨i, ids⟩
  rw [guarded_run value t m s hi, guarded_run value t m' s hi]
  cases ha : (s.engine.valueGuard.renewed.enter ⟨value, i⟩).1 with
  | entered =>
    dsimp only
    rw [h i ids hi ha]
  | _ => rfl

structure AtDepth (L : Limits) (d : Nat) (s : Context) : Prop where
  limits : s.engine.valueGuard.limits = L
  synced : s.engine.valueGuard.Synced
  depth : s.engine.valueGuard.depth = d

section
variable {L : Limits} {d : Nat} {s s' : Context}

theorem AtDepth.follows (hs : AtDepth L d s) (hf : s.Follows s') : AtDepth L d s' :=
  ⟨hf.valueGuard.limits.trans hs.limits, hf.valueGuard.synced hs.synced, (hf.valueGuard.depth hs.synced).trans hs.depth⟩

theorem AtDepth.entered (hs : AtDepth L d s) {key : ValueCheck}
    (ha : (s.engine.valueGuard.renewed.enter key).1 = .entered) (ids : Identities) (journal : Log.Journal) :
    AtDepth L (d + 1) ⟨s.engine.valueTried key, ids, journal⟩ ∧ d < L.maxDepth.toNat := by
  have hrenewed := s.engine.valueGuard.restored_renewed
  obtain ⟨hlimits, hdepth, hsynced, -⟩ := Guard.entered ha
  have hlt := Guard.depth_lt_of_entered ha
  rw [hrenewed.depth hs.synced, hrenewed.limits, hs.limits, hs.depth] at hlt
  rw [hrenewed.depth hs.synced, hs.depth] at hdepth
  exact ⟨⟨hlimits.trans (hrenewed.limits.trans hs.limits), hsynced (hrenewed.synced hs.synced), hdepth⟩, hlt⟩

theorem agrees_of_follows {m : Check Bool} (hm : ∀ s : Context, s.Follows (stateAfter (m s))) :
    Agrees (AtDepth L d) m m := by
  refine .same fun s hs => ?_
  have hf := hm s
  unfold Leads
  cases hr : m s with
  | ok b s' => rw [hr] at hf; exact hs.follows hf
  | error e s' => trivial

theorem guarded_agrees {value : Nat} {t : TypeRef} {m m' : Check Bool}
    (hm : d < L.maxDepth.toNat → Agrees (AtDepth L (d + 1)) m m')
    (hf : ∀ s : Context, s.Follows (stateAfter (m' s))) :
    Agrees (AtDepth L d) (guarded value t m) (guarded value t m') := by
  intro s hs
  have heq : guarded value t m s = guarded value t m' s := by
    refine guarded_congr fun i ids hi ha => ?_
    obtain ⟨hentered, hd⟩ := hs.entered ha ids s.journal
    exact (hm hd _ hentered).1
  have hfollows : ∀ s : Context, s.Follows (stateAfter (guarded value t m' s)) := guarded_follows hf
  obtain ⟨-, hled⟩ := agrees_of_follows hfollows s hs
  refine ⟨heq, ?_⟩
  unfold Leads at hled ⊢
  rwa [heq]

end

theorem compositional_follows :
    Compositional Set.univ fun m : Check Bool => ∀ s : Context, s.Follows (stateAfter (m s)) :=
  compositional_rel Context.Follows.refl Context.Follows.trans

theorem objectRule_follows {c : Catalog} {h : Heap} {ask : Value → TypeRef → Check Bool}
    (ha : ∀ v t (s : Context), s.Follows (stateAfter (ask v t s))) (v : Value) (t : TypeRef) (shape : Shape)
    (s : Context) : s.Follows (stateAfter (objectRule c h ask v t shape s)) := by
  revert s
  exact objectRule_related compositional_follows.relational ask (fun _ _ => ha _ _)
    (fun f tag _ _ => Compatibility.resolve_follows c (.functionTag tag t)) fun _ _ _ _ _ _ => ha _ _

section
variable {c : Catalog} (hc : c.Contractive) {h : Heap} {L : Limits}
include hc

/-- Levels of nested questions that are enough below this depth: the guard bounds how many object types follow, and
the rank what comes before the next. -/
theorem unrolled_agrees {stop : Value → TypeRef → Check Bool} {n m d : Nat} {v : Value} {t : TypeRef}
    (hn : (L.maxDepth.toNat - d) * (c.types.size + 2) + c.rank t + 1 ≤ n)
    (hm : (L.maxDepth.toNat - d) * (c.types.size + 2) + c.rank t + 1 ≤ m) :
    Agrees (AtDepth L d) (unrolled c h stop n v t) (checkWithin c h m v t) := by
  induction n generalizing m d v t with
  | zero => omega
  | succ n ih =>
    cases m with
    | zero => omega
    | succ m =>
      have hrule : Agrees (AtDepth L d) (rule c h (unrolled c h stop n) v t) (rule c h (checkWithin c h m) v t) := by
        refine rule_related (relational_agrees _) _ (fun e _ => Set.mem_univ e) (fun htag u hu => ?_)
          fun value shape _ hshape => ?_
        · have hlt := hc.rank_lt ⟨htag, hu⟩
          exact ih (by omega) (by omega)
        · refine guarded_agrees (fun hd => ?_)
            (objectRule_follows (fun v t => (answers_checkWithin c h false m v t).follows) v t shape)
          have hlevels : (L.maxDepth.toNat - d) * (c.types.size + 2) =
              (L.maxDepth.toNat - (d + 1)) * (c.types.size + 2) + (c.types.size + 2) := by
            rw [show L.maxDepth.toNat - d = L.maxDepth.toNat - (d + 1) + 1 by omega, Nat.succ_mul]
          have hask : ∀ v u, Agrees (AtDepth L (d + 1)) (unrolled c h stop n v u) (checkWithin c h m v u) := by
            intro v u
            have hrank := c.rank_le u
            exact ih (by omega) (by omega)
          exact objectRule_related (relational_agrees _) _ (fun p _ => hask _ _)
            (fun f tag _ _ => agrees_of_follows (Compatibility.resolve_follows c (.functionTag tag t)))
            fun r index _ _ u _ => hask u index
      unfold unrolled checkWithin
      by_cases hv : v.isNullish = true
      · simp only [hv, if_true]
        exact .pure true
      · simp only [hv, Bool.false_eq_true, if_false]
        exact hrule

theorem isType_ends {s : Context} (hL : s.engine.options.valueProfile.limits = L) (hs : AtDepth L 0 s) (v : Value)
    (t : TypeRef) (stop : Value → TypeRef → Check Bool) {n : Nat}
    (hn : (L.maxDepth.toNat + 1) * (c.types.size + 2) ≤ n) : unrolled c h stop n v t s = isType c h v t s := by
  have hrank := c.rank_le t
  have hlevels : (L.maxDepth.toNat + 1) * (c.types.size + 2) =
      L.maxDepth.toNat * (c.types.size + 2) + (c.types.size + 2) := Nat.succ_mul _ _
  have hagrees : Agrees (AtDepth L 0) (unrolled c h stop n v t)
      (checkWithin c h ((L.maxDepth.toNat + 1) * (c.types.size + 2)) v t) :=
    unrolled_agrees hc (by rw [Nat.sub_zero]; omega) (by rw [Nat.sub_zero]; omega)
  rw [(hagrees s hs).1, ← hL]
  rfl

end

/-! ## The limit -/

/-- Only checks of `K` are in progress, and no judgment is. -/
structure Checking (o : Options) (K : Set (Value × TypeRef)) (s : Context) : Prop where
  options : s.engine.options = o
  subtypeGuard : (Guard.ofProfile o.subtypeProfile).Restored s.engine.subtypeGuard
  limits : s.engine.valueGuard.limits = o.valueProfile.limits
  synced : s.engine.valueGuard.Synced
  visiting : ∀ {key}, s.engine.valueGuard.isVisiting key = true →
    ∃ p ∈ K, p.1.identity? = some key.value ∧ s.identities.find? (.type p.2) = some key.type

section
variable {o : Options} {K : Set (Value × TypeRef)} {s s' : Context}

theorem Checking.follows (hs : Checking o K s) (hf : s.Follows s') : Checking o K s' := by
  refine ⟨hf.options.trans hs.options, hs.subtypeGuard.trans hf.subtypeGuard, hf.valueGuard.limits.trans hs.limits,
    hf.valueGuard.synced hs.synced, fun {key} hv => ?_⟩
  rw [hf.valueGuard.visiting hs.synced] at hv
  obtain ⟨p, hp, hvalue, htype⟩ := hs.visiting hv
  exact ⟨p, hp, hvalue, hf.identities.keeps htype⟩

theorem Checking.entered (hs : Checking o K s) {v : Value} {t : TypeRef} (hvt : (v, t) ∈ K) {key : ValueCheck}
    {ids : Identities} (hids : s.identities.Grows ids) (hvalue : v.identity? = some key.value)
    (htype : ids.find? (.type t) = some key.type) (ha : (s.engine.valueGuard.renewed.enter key).1 = .entered)
    (journal : Log.Journal) : Checking o K ⟨s.engine.valueTried key, ids, journal⟩ := by
  have hrenewed := s.engine.valueGuard.restored_renewed
  obtain ⟨hlimits, -, hsynced, hvisit⟩ := Guard.entered ha
  refine ⟨hs.options, hs.subtypeGuard, hlimits.trans (hrenewed.limits.trans hs.limits),
    hsynced (hrenewed.synced hs.synced), fun {other} hv => ?_⟩
  obtain rfl | hv := (hvisit other).mp hv
  · exact ⟨(v, t), hvt, hvalue, htype⟩
  · rw [hrenewed.visiting hs.synced] at hv
    obtain ⟨p, hp, hvalue', htype'⟩ := hs.visiting hv
    exact ⟨p, hp, hvalue', hids.keeps htype'⟩

theorem Checking.depth_le (hs : Checking o K s) (hK : K.Finite) : s.engine.valueGuard.depth ≤ K.ncard := by
  obtain ⟨-, hcount⟩ := Guard.ncard_visiting hs.synced
  let keyFor (p : Value × TypeRef) : ValueCheck :=
    ⟨p.1.identity?.getD 0, (s.identities.find? (.type p.2)).getD default⟩
  have hsub : { key | s.engine.valueGuard.isVisiting key = true } ⊆ keyFor '' K := by
    intro key hv
    obtain ⟨p, hp, hvalue, htype⟩ := hs.visiting hv
    refine ⟨p, hp, ?_⟩
    simp only [keyFor, hvalue, htype, Option.getD_some]
  rw [← hcount]
  exact (Set.ncard_le_ncard hsub (hK.image _)).trans (Set.ncard_image_le hK)

end

/-- The check does not fail for a limit, as long as there is room for identities. -/
structure Unlimited (o : Options) (K : Set (Value × TypeRef)) (strict : Bool) (m : Check Bool) : Prop extends
    Keeps (Spares ∅ strict) m where
  limit : ∀ {s s' activity}, Checking o K s → Spares ∅ strict s → m s = .error (.recursionLimit activity) s' →
    ¬ s'.identities.HasRoom

section
variable {o : Options} {K : Set (Value × TypeRef)} {strict : Bool}

theorem compositional_unlimited :
    Compositional { e | ∀ activity, e ≠ .recursionLimit activity } (Unlimited o K strict) where
  pure b := ⟨.pure b, fun _ _ h => by cases h⟩
  throw he := ⟨.throw _, fun _ _ h => by cases h; exact absurd rfl (he _)⟩
  bind {m f} hm hf := by
    refine ⟨hm.bind fun b => (hf b).toKeeps, fun {s s' activity} hs hsound h hroom => ?_⟩
    obtain h | ⟨b, s₁, hrun, h⟩ := bind_error.mp h
    · exact hm.limit hs hsound h hroom
    · have hfollows := hm.follows s
      have hkeeps := hm.keeps hsound
      have hlater := (hf b).follows s₁
      rw [hrun] at hfollows hkeeps
      rw [h] at hlater
      exact (hf b).limit (hs.follows hfollows) (hkeeps (hlater.identities.hasRoom hroom)) h hroom

theorem unlimited_guarded (hK : K.Finite) (hunbounded : o.valueProfile.limits.maxIterations.toNat = unboundedIterations)
    (hlt : K.ncard < o.valueProfile.limits.maxDepth.toNat) {v : Value} {value : Nat} {t : TypeRef} {m : Check Bool}
    (hvt : (v, t) ∈ K) (hvalue : v.identity? = some value) (hm : Unlimited o K strict m) :
    Unlimited o K strict (guarded value t m) := by
  refine ⟨keeps_guarded (fun h => h.identities) (fun _ _ h hids hs => h.of_cache rfl hids hs fun _ => rfl) hm.toKeeps,
    fun {s s' activity} hs hsound h hroom => ?_⟩
  have hguarded := guarded_guarded value t m s
  rw [h] at hguarded
  cases hguarded with
  | denied hi ha =>
    have hrenewed := s.engine.valueGuard.restored_renewed
    have hle := Guard.depth_of_isExceeded ha (by rw [hrenewed.limits, hs.limits, hunbounded])
    rw [hrenewed.limits, hs.limits, hrenewed.depth hs.synced] at hle
    have hdepth := hs.depth_le hK
    omega
  | @failed i ids e s₁ hi ha hrun =>
    have hf := hm.follows ⟨s.engine.valueTried ⟨value, i⟩, ids, s.journal⟩
    have hids := s.identities.grows_assign (.type t)
    have hassign := hsound.identities.assign (h := .type t)
    have htype := Identities.find?_assign_self hsound.identities (h := .type t)
    rw [hrun] at hf
    rw [hi] at hids hassign htype
    have hroom' := hf.identities.hasRoom hroom
    have hentered := hs.entered hvt hids hvalue (htype hroom') ha s.journal
    exact hm.limit hentered (hsound.of_cache rfl hids (hassign hroom') fun _ => rfl) hrun hroom

end

/-! ## Other failures -/

def FailsFor (E : Set Failure) (m : Check Bool) : Prop := ∀ s s' e, m s = .error e s' → e ∈ E

theorem compositional_failsFor (E : Set Failure) : Compositional E (FailsFor E) where
  pure b s s' e h := by cases h
  throw he s s' e h := by cases h; exact he
  bind hm hf s s' e h := by
    obtain h | ⟨b, s₁, -, h⟩ := bind_error.mp h
    · exact hm s s' e h
    · exact hf b s₁ s' e h

theorem failsFor_guarded {E : Set Failure} (hE : .recursionLimit .checkingValue ∈ E) {value : Nat} {t : TypeRef}
    {m : Check Bool} (hm : FailsFor E m) : FailsFor E (guarded value t m) := by
  intro s s' e h
  have hguarded := guarded_guarded value t m s
  rw [h] at hguarded
  cases hguarded with
  | denied => exact hE
  | failed hi ha hrun => exact hm _ _ _ hrun

/-! ## Whole checks -/

def guardedPairs (c : Catalog) (h : Heap) (v : Value) (t : TypeRef) : Set (Value × TypeRef) :=
  h.references v ×ˢ { u ∈ c.reachedTypes {.type t} | c.tag u = .object }

section
variable {c : Catalog} {h : Heap} {v : Value} {t : TypeRef}

theorem reached_subset : c.reached {.type t} ⊆ c.reached (insert (.type t) (h.tags v)) := by
  intro g ⟨r, hr, hreach⟩
  exact ⟨r, .inl hr, hreach⟩

theorem mem_tags {f : FunctionRef} {tag : TypeRef} (hf : Relation.ReflTransGen h.Refers v (.function f))
    (htag : (h.function f).tag = some tag) : .type tag ∈ h.tags v := ⟨f, ⟨hf, rfl⟩, tag, htag, rfl⟩

theorem finite_guardedPairs : (guardedPairs c h v t).Finite :=
  (h.finite_references v).prod
    ((Catalog.finite_reachedTypes (Set.finite_singleton _)).subset fun _ hu => hu.1)

theorem unlimited_unrolled {o : Options} (strict : Bool)
    (hunbounded : o.valueProfile.limits.maxIterations.toNat = unboundedIterations)
    (hsubtype : o.subtypeProfile.limits.maxIterations.toNat = unboundedIterations)
    (hfew : (h.references v).ncard * { u ∈ c.reachedTypes {.type t} | c.tag u = .object }.ncard <
      o.valueProfile.limits.maxDepth.toNat)
    (hpairs : c.typeCount (insert (.type t) (h.tags v)) * c.typeCount (insert (.type t) (h.tags v)) +
      c.signatureCount (insert (.type t) (h.tags v)) * c.signatureCount (insert (.type t) (h.tags v)) + 1 <
        o.subtypeProfile.limits.maxDepth.toNat) (n : Nat) :
    Unlimited o (guardedPairs c h v t) strict (unrolled c h (fun _ _ => pure true) n v t) := by
  have hcard : (guardedPairs c h v t).ncard < o.valueProfile.limits.maxDepth.toNat := by
    rw [guardedPairs, Set.ncard_prod]
    exact hfew
  refine unrolled_of_parts (S := c.reached {.type t}) (V := { u | Relation.ReflTransGen h.Refers v u })
    compositional_unlimited Catalog.reached_closed (fun u hu u' hu' => hu.tail hu') ?_ ?_ ?_
    (fun _ _ => compositional_unlimited.pure true) n (fun _ => .refl) (Catalog.mem_reached rfl)
  · intro u e _ hblames activity he
    subst he
    exact hblames
  · intro u value s shape m hu hvalue hs hshape hm
    obtain ⟨name, hget⟩ := Catalog.shape_eq_ok.mp hshape
    refine unlimited_guarded finite_guardedPairs hunbounded hcard (v := u) ⟨⟨hu, ?_⟩, hs, ?_⟩ hvalue hm
    · rw [hvalue]
      rfl
    · simp only [Catalog.tag, hget]
      rfl
  · intro f tag u shape hf htag hu _
    have hspared : Compatibility.Spared ∅ strict (.functionTag tag u) (Compatibility.resolve c (.functionTag tag u)) :=
      Compatibility.resolve_spared_complete (Set.empty_subset _) _
    refine ⟨hspared.toKeeps, fun {s s' activity} hs _ herror _ => ?_⟩
    have hle := (Compatibility.tagMatches_ends (reached_subset hu) ((h.finite_tags v).insert _) (.inl rfl)
      (.inr (mem_tags hf htag)) hs.options hs.subtypeGuard).2 activity s' herror hsubtype
    exact absurd hpairs (Nat.not_lt.mpr hle)

theorem failsFor_isType (htags : ∀ tag, .type tag ∈ h.tags v → ∃ shape, c.shape tag = .ok shape) :
    FailsFor { e | (∃ u ∈ c.reachedTypes (insert (.type t) (h.tags v)), c.Blames u e) ∨
      ∃ activity, e = .recursionLimit activity } (isType c h v t) := by
  refine isType_of_parts (S := c.reached {.type t}) (V := { u | Relation.ReflTransGen h.Refers v u })
    (compositional_failsFor _) Catalog.reached_closed (fun u hu u' hu' => hu.tail hu') ?_ ?_ ?_ (.inr ⟨_, rfl⟩) ?_
    (fun _ => .refl) (Catalog.mem_reached rfl)
  · intro u e hu hblames
    exact .inl ⟨u, reached_subset hu, hblames⟩
  · intro u value s shape m _ _ _ _ hm
    exact failsFor_guarded (.inr ⟨_, rfl⟩) hm
  · intro f tag u shape hf htag hu hshape s s' e herror
    obtain ⟨own, hown⟩ := htags tag (mem_tags hf htag)
    have htag' : .type tag ∈ c.reached (insert (.type t) (h.tags v)) := Catalog.mem_reached (.inr (mem_tags hf htag))
    obtain hblames | hlimit := Compatibility.tagMatches_error (reached_subset hu) htag' hown hshape herror
    · exact .inl hblames
    · exact .inr ⟨_, hlimit⟩
  · intro f hf s s' e hrun
    exact hf s s s' e hrun

end

end TypeContracts.Conformance
