import TypeContracts.Proofs.Call.Denials
import TypeContracts.Proofs.Conformance.Ending

/-!
# Questions come to an end

Between two questions the guards of an engine have nothing in progress, whatever
it has been asked before and whether the counter of identities has wrapped or
not (`World.Reachable.idle`). So each question starts at the top of its guards,
and what can be reached in descriptors bounds how deep it goes.
-/

namespace TypeContracts

/-- The guards are as they were when the engine was made, the counts of attempts apart. -/
structure Idle (o : Options) (s : Context) : Prop where
  options : s.engine.options = o
  subtypeGuard : (Guard.ofProfile o.subtypeProfile).Restored s.engine.subtypeGuard
  valueGuard : (Guard.ofProfile o.valueProfile).Restored s.engine.valueGuard

section
variable {options : Options} {s s' : Context}

theorem Idle.follows (hi : Idle options s) (hf : s.Follows s') : Idle options s' :=
  ⟨hf.options.trans hi.options, hi.subtypeGuard.trans hf.subtypeGuard, hi.valueGuard.trans hf.valueGuard⟩

theorem Idle.reset (hi : Idle options s) : Idle options { s with engine := s.engine.reset } := by
  have hsubtype : s.engine.subtypeGuard.reset = .ofProfile options.subtypeProfile := by
    rw [Guard.reset, hi.subtypeGuard.limits]
    rfl
  have hvalue : s.engine.valueGuard.reset = .ofProfile options.valueProfile := by
    rw [Guard.reset, hi.valueGuard.limits]
    rfl
  refine ⟨hi.options, ?_, ?_⟩
  · simp only [Engine.reset, hsubtype]
    exact .refl _
  · simp only [Engine.reset, hvalue]
    exact .refl _

theorem Idle.move {c : Catalog} {h : Heap} (hi : Idle options s) (hm : Context.Move c h s s') : Idle options s' := by
  cases hm with
  | judge j => exact hi.follows (Compatibility.resolve_follows c j s)
  | check v t => exact hi.follows (Conformance.isType_follows c h v t s)
  | draw g => exact ⟨hi.options, hi.subtypeGuard, hi.valueGuard⟩
  | reset => exact hi.reset
  | note journal notifies => exact ⟨hi.options, hi.subtypeGuard, hi.valueGuard⟩

theorem World.Reachable.idle {filter : Log.Filter} {c : Catalog} {h : Heap} {w : World}
    (hw : (World.fresh options filter c h).Reachable w) : Idle options w.context :=
  hw.invariant ⟨rfl, .refl _, .refl _⟩ fun hm hi => hi.move hm

theorem Idle.subtype_rest (hi : Idle options s) :
    s.engine.subtypeGuard.limits = options.subtypeProfile.limits ∧ s.engine.subtypeGuard.Synced ∧
      s.engine.subtypeGuard.depth = 0 :=
  ⟨hi.subtypeGuard.limits, hi.subtypeGuard.synced rfl, hi.subtypeGuard.depth rfl⟩

end

/-! ## Compatibility -/

section
variable {options : Options} {filter : Log.Filter} {c₀ : Catalog} {h : Heap} {w : World}

/-- The recursion behind a judgment ends at a depth that the descriptors bound, and a failure has its cause among
them: a type parameter, an intersection or an undefined object type can be reached, or the limit is as small as
the number of pairs. -/
theorem compatibility_ends (hw : (World.fresh options filter c₀ h).Reachable w) (source target : TypeRef) :
    let c := w.catalog
    let roots : Set Handle := {.type source, .type target}
    let pairs := c.typeCount roots * c.typeCount roots + c.signatureCount roots * c.signatureCount roots
    let limits := options.subtypeProfile.limits
    (c.reached roots).Finite ∧
    (∀ stop n, min limits.maxDepth.toNat pairs < n →
      Compatibility.unrolled c options.strictNullableSources stop n (.type source target) w.context =
        Compatibility.isCompatible c source target w.context) ∧
    (∀ e, outcome (Action.isCompatible source target w) = .error e →
      (∃ u ∈ c.reachedTypes roots, c.Blames u e) ∨
        e = .recursionLimit .relatingTypes ∧
          (limits.maxIterations.toNat = unboundedIterations → limits.maxDepth.toNat ≤ pairs)) ∧
    (c.Answerable source → c.Answerable target → options.subtypeProfile = .subtypeCheck → pairs < 10000 →
      ∃ b, outcome (Action.isCompatible source target w) = .ok b) := by
  intro c roots pairs limits
  have hroots : roots.Finite := Set.toFinite _
  have hsource : .type source ∈ roots := .inl rfl
  have hS := Catalog.finite_reached (c := c) hroots
  have hQ := Compatibility.askClosed_among (S := c.reached roots) Catalog.reached_closed
  have hj : Judgment.type source target ∈ Judgment.among (c.reached roots) :=
    ⟨Catalog.mem_reached hsource, Catalog.mem_reached (.inr rfl)⟩
  have hidle := hw.idle
  obtain ⟨hlimits, hsynced, hrest⟩ := hidle.subtype_rest
  obtain ⟨hall, hlimit⟩ := Compatibility.resolve_ends hS hQ Compatibility.among_subset_between
    (Compatibility.among_reached_distinct hroots hsource) (Compatibility.size_le_pairs hroots) hj
    (by rw [hidle.options]) hlimits hsynced hrest
  rw [hidle.options] at hall
  have hcause : ∀ e, outcome (Action.isCompatible source target w) = .error e →
      (∃ u ∈ c.reachedTypes roots, c.Blames u e) ∨ e = .recursionLimit .relatingTypes ∧
        (limits.maxIterations.toNat = unboundedIterations → limits.maxDepth.toNat ≤ pairs) := by
    intro e he
    rw [Action.isCompatible, outcome_check] at he
    cases hrun : Compatibility.isCompatible c source target w.context with
    | ok b s' => rw [hrun] at he; cases he
    | error e' s' =>
      rw [hrun] at he
      cases he
      obtain rfl | ⟨k, hk, hfail⟩ := Compatibility.resolveWithin_error hQ hj hrun
      · exact .inr ⟨rfl, (hlimit _ s' hrun).2⟩
      · exact .inl (Compatibility.blames_of_failures hk hfail)
  refine ⟨hS, hall, hcause, fun hs ht hprofile hpairs => ?_⟩
  cases hr : outcome (Action.isCompatible source target w) with
  | ok b => exact ⟨b, rfl⟩
  | error e =>
    obtain ⟨u, ⟨r, hr, hu⟩, hblames⟩ | ⟨-, hdepth⟩ := hcause e hr
    · obtain rfl | rfl := hr
      · exact absurd hblames (hs.not_blames hu e)
      · exact absurd hblames (ht.not_blames hu e)
    · have hdepth := hdepth (by simp only [limits, hprofile]; rfl)
      simp only [limits, hprofile, Profile.limits] at hdepth
      exact absurd hdepth (Nat.not_le.mpr hpairs)

end

/-- What is there is all that can be reached, unless something is missing. -/
theorem Catalog.Closed.counts_le {c : Catalog} (hc : c.Closed) {roots : Set Handle} (hroots : ∀ g ∈ roots, c.Holds g) :
    c.typeCount roots ≤ c.types.size ∧ c.signatureCount roots ≤ c.signatures.size := by
  have hheld : ∀ g ∈ c.reached roots, c.Holds g := Catalog.reached_subset (S := { g | c.Holds g }) hroots hc
  constructor
  · have hsub : c.reachedTypes roots ⊆
        (((Finset.range c.types.size).image TypeRef.mk : Finset TypeRef) : Set TypeRef) := by
      intro t ht
      simpa using ⟨t.index, hheld _ ht, rfl⟩
    have hle := Set.ncard_le_ncard hsub (Finset.finite_toSet _)
    rw [Set.ncard_coe_finset] at hle
    exact hle.trans (Finset.card_image_le.trans (Finset.card_range _).le)
  · have hsub : c.reachedSignatures roots ⊆
        (((Finset.range c.signatures.size).image SignatureRef.mk : Finset SignatureRef) : Set SignatureRef) := by
      intro x hx
      simpa using ⟨x.index, hheld _ hx, rfl⟩
    have hle := Set.ncard_le_ncard hsub (Finset.finite_toSet _)
    rw [Set.ncard_coe_finset] at hle
    exact hle.trans (Finset.card_image_le.trans (Finset.card_range _).le)

theorem endlessLists_answerable (t : TypeRef) : endlessLists.Answerable t := by
  intro u _
  match u with
  | ⟨0⟩ | ⟨1⟩ | ⟨2⟩ => exact ⟨by decide, by decide, nofun⟩
  | ⟨i + 3⟩ =>
    refine ⟨?_, ?_, ?_⟩
    · simp [endlessLists, Catalog.tag, Catalog.get, Descriptor.tag]
    · simp [endlessLists, Catalog.tag, Catalog.get, Descriptor.tag]
    · simp [endlessLists, Catalog.get]

/-- Nine pairs are enough for two lists that never end. -/
theorem compatibility_ends_endlessLists :
    (∀ stop, Compatibility.unrolled endlessLists false stop 10 (.type ⟨1⟩ ⟨2⟩) endlessListsAsked.context =
      Compatibility.isCompatible endlessLists ⟨1⟩ ⟨2⟩ endlessListsAsked.context) ∧
    ∃ b, outcome (Action.isCompatible ⟨1⟩ ⟨2⟩ endlessListsAsked) = .ok b := by
  have hw : (World.fresh {} .silent endlessLists {}).Reachable endlessListsAsked := .performed _ _ .start
  obtain ⟨-, hall, -, hok⟩ := compatibility_ends hw ⟨1⟩ ⟨2⟩
  rw [show endlessListsAsked.catalog = endlessLists from catalog_performWithin_isCompatible _ _ _ _] at hall hok
  have hclosed : endlessLists.Closed := Catalog.closed_of_indices (by decide) (by decide)
  have hroots : ∀ g ∈ ({.type ⟨1⟩, .type ⟨2⟩} : Set Handle), endlessLists.Holds g := by
    intro g hg
    rcases hg with rfl | rfl <;> decide
  obtain ⟨htypes, hsignatures⟩ := hclosed.counts_le hroots
  have hpairs := Nat.add_le_add (Nat.mul_le_mul htypes htypes) (Nat.mul_le_mul hsignatures hsignatures)
  rw [show endlessLists.types.size = 3 from rfl, show endlessLists.signatures.size = 0 from rfl] at hpairs
  constructor
  · intro stop
    exact hall stop 10 (by omega)
  · exact hok (endlessLists_answerable _) (endlessLists_answerable _) rfl (by omega)

/-! ## Conformance -/

section
variable {options : Options} {filter : Log.Filter} {c₀ : Catalog} {h₀ : Heap} {w : World}

theorem World.Reachable.spares_nothing (hw : (World.fresh options filter c₀ h₀).Reachable w)
    (hroom : w.context.identities.HasRoom) :
    Compatibility.Spares ∅ options.strictNullableSources w.context := by
  refine hw.invariant (P := fun s => s.identities.HasRoom → Compatibility.Spares ∅ options.strictNullableSources s)
    (fun _ => ⟨rfl, Identities.sound_empty, fun hp => ?_⟩) (fun hm hbefore hroom => ?_) hroom
  · simp [World.fresh, World.create, Engine.create, Cache.peek] at hp
  · exact hm.spares (Set.empty_subset _) hroom (hbefore (hm.grows.hasRoom hroom))

/-- A value check ends where every cycle of descriptors passes through an object type. It fails for a type
parameter, an intersection or an undefined object type that can be reached from the type or from the tags of
functions, or for a limit; and for no limit if there are fewer pairs than the limits allow. -/
theorem conformance_ends (hw : (World.fresh options filter c₀ h₀).Reachable w) (v : Value) (t : TypeRef)
    (htags : ∀ tag, .type tag ∈ w.heap.tags v → ∃ shape, w.catalog.shape tag = .ok shape)
    (hcycles : w.catalog.Contractive) :
    let c := w.catalog
    let h := w.heap
    let roots : Set Handle := insert (.type t) (h.tags v)
    let references := (h.references v).ncard
    let objects := { u ∈ c.reachedTypes {.type t} | c.tag u = .object }.ncard
    let pairs := c.typeCount roots * c.typeCount roots + c.signatureCount roots * c.signatureCount roots
    let limits := options.valueProfile.limits
    let subtypeLimits := options.subtypeProfile.limits
    ((h.references v).Finite ∧ (c.reached roots).Finite) ∧
    (∀ stop n, (limits.maxDepth.toNat + 1) * (c.types.size + 2) ≤ n →
      Conformance.unrolled c h stop n v t w.context = Conformance.isType c h v t w.context) ∧
    (∀ tag u s, .type tag ∈ h.tags v → u ∈ c.reachedTypes roots → s.engine.options = options →
      (Guard.ofProfile options.subtypeProfile).Restored s.engine.subtypeGuard →
      ∀ stop n, min subtypeLimits.maxDepth.toNat (pairs + 1) < n →
        Compatibility.unrolled c options.strictNullableSources stop n (.functionTag tag u) s =
          Compatibility.tagMatches c tag u s) ∧
    (limits.maxIterations.toNat = unboundedIterations → subtypeLimits.maxIterations.toNat = unboundedIterations →
      references * objects < limits.maxDepth.toNat → pairs + 1 < subtypeLimits.maxDepth.toNat →
      (stateAfter (Action.isType v t w)).context.identities.HasRoom →
      ∀ activity, outcome (Action.isType v t w) ≠ .error (.recursionLimit activity)) ∧
    ∀ e, outcome (Action.isType v t w) = .error e →
      (∃ u ∈ c.reachedTypes roots, c.Blames u e) ∨ ∃ activity, e = .recursionLimit activity := by
  intro c h roots references objects pairs limits subtypeLimits
  have hroots : roots.Finite := (h.finite_tags v).insert _
  have ht : .type t ∈ roots := .inl rfl
  have hidle := hw.idle
  have hsynced := hidle.valueGuard.synced rfl
  have hdepth := hidle.valueGuard.depth rfl
  have hall : ∀ stop n, (limits.maxDepth.toNat + 1) * (c.types.size + 2) ≤ n →
      Conformance.unrolled c h stop n v t w.context = Conformance.isType c h v t w.context := by
    intro stop n hn
    exact Conformance.isType_ends (L := limits) hcycles (by rw [hidle.options])
      ⟨hidle.valueGuard.limits, hsynced, hdepth⟩ v t stop hn
  refine ⟨⟨h.finite_references v, Catalog.finite_reached hroots⟩, hall, ?_, ?_, ?_⟩
  · intro tag u s htag hu ho hguard
    exact (Compatibility.tagMatches_ends hu hroots ht (.inr htag) ho hguard).1
  · intro hunbounded hsubtype hfew hpairs hroom activity he
    have hunlimited := Conformance.unlimited_unrolled (c := c) (h := h) (v := v) (t := t) options.strictNullableSources
      hunbounded hsubtype hfew hpairs ((limits.maxDepth.toNat + 1) * (c.types.size + 2))
    have hstart : Conformance.Checking options (Conformance.guardedPairs c h v t) w.context := by
      refine ⟨hidle.options, hidle.subtypeGuard, hidle.valueGuard.limits, hsynced, fun {key} hv => ?_⟩
      rw [Guard.isVisiting_of_depth hsynced hdepth] at hv
      cases hv
    rw [Action.isType, outcome_check] at he
    rw [Action.isType, stateAfter_check] at hroom
    have hbefore := (Conformance.isType_follows c h v t w.context).identities.hasRoom hroom
    cases hr : Conformance.isType c h v t w.context with
    | ok b s' => rw [hr] at he; cases he
    | error e s' =>
      rw [hr] at he hroom
      cases he
      rw [← hall _ _ (Nat.le_refl _)] at hr
      exact hunlimited.limit hstart (hw.spares_nothing hbefore) hr hroom
  · intro e he
    rw [Action.isType, outcome_check] at he
    cases hr : Conformance.isType c h v t w.context with
    | ok b s' => rw [hr] at he; cases he
    | error e' s' =>
      rw [hr] at he
      cases he
      exact Conformance.failsFor_isType htags _ _ _ hr

end

/-- Nodes that follow each other, each with a function to run, or a number at the end. Type 4 is the tag of a
function that needs fewer arguments than type 3 promises. -/
def runningNodes : Catalog where
  types := #[
    .numeric,
    .object (some "Node") (some { properties := .ofList [("next", ⟨⟨2⟩, false⟩), ("run", ⟨⟨3⟩, false⟩)] }),
    .union [⟨1⟩, ⟨0⟩] none,
    .object none (some { callSignatures := [⟨0⟩] }),
    .object none (some { callSignatures := [⟨1⟩] })]
  signatures := #[⟨[⟨0⟩, ⟨0⟩], 2, none, ⟨0⟩⟩, ⟨[⟨0⟩], 1, none, ⟨0⟩⟩]

def runningNode : Heap where
  objects := #[{ properties := .ofList [("next", .object ⟨0⟩), ("run", .function ⟨0⟩)] }]
  functions := #[{ tag := some ⟨4⟩ }]

theorem runningNodes_contractive : runningNodes.Contractive := by
  let level : Handle → Nat
    | .signature _ => 2
    | .type t => if t = ⟨2⟩ then 1 else 0
  refine Catalog.contractive_of_lt (f := level) fun a b ha hb => ?_
  match a with
  | .signature x =>
    cases b with
    | signature y => simp [Catalog.refs, Signature.refs] at hb
    | type t =>
      simp only [level]
      split <;> decide
  | .type ⟨0⟩ => cases hb
  | .type ⟨1⟩ | .type ⟨3⟩ | .type ⟨4⟩ => exact absurd rfl ha
  | .type ⟨2⟩ =>
    revert b
    decide
  | .type ⟨i + 5⟩ => simp [Catalog.refs, Catalog.get, runningNodes, Descriptor.refs] at hb

theorem conformance_ends_runningNode :
    outcome (Action.isType (.object ⟨0⟩) ⟨1⟩ (World.fresh {} .silent runningNodes runningNode)) = .ok true ∧
      ∀ activity, outcome (Action.isType (.object ⟨0⟩) ⟨1⟩ (World.fresh {} .silent runningNodes runningNode)) ≠
        .error (.recursionLimit activity) := by
  have htag : ∀ tag, .type tag ∈ runningNode.tags (.object ⟨0⟩) → tag = ⟨4⟩ := by
    intro tag ⟨f, _, tag', htag, heq⟩
    cases heq
    match f with
    | ⟨0⟩ => exact (Option.some.inj htag).symm
    | ⟨i + 1⟩ => simp [Heap.function, runningNode, Array.getD, default] at htag
  obtain ⟨-, -, -, hlimit, -⟩ := conformance_ends (w := World.fresh {} .silent runningNodes runningNode) .start
    (.object ⟨0⟩) ⟨1⟩ (fun tag ht => htag tag ht ▸ ⟨_, rfl⟩) runningNodes_contractive
  have hclosed : runningNodes.Closed := Catalog.closed_of_indices (by decide) (by decide)
  have hroots : ∀ g ∈ insert (.type ⟨1⟩) (runningNode.tags (.object ⟨0⟩)), runningNodes.Holds g := by
    intro g hg
    obtain rfl | hg := hg
    · decide
    · obtain ⟨f, hf, tag, ht, rfl⟩ := hg
      rw [htag tag ⟨f, hf, tag, ht, rfl⟩]
      decide
  obtain ⟨htypes, hsignatures⟩ := hclosed.counts_le hroots
  have hpairs := Nat.add_le_add (Nat.mul_le_mul htypes htypes) (Nat.mul_le_mul hsignatures hsignatures)
  have hobjects : { u ∈ runningNodes.reachedTypes {.type ⟨1⟩} | runningNodes.tag u = .object }.ncard ≤ 5 := by
    refine (Set.ncard_le_ncard (fun u hu => hu.1) (Catalog.finite_reachedTypes (Set.finite_singleton _))).trans ?_
    exact (hclosed.counts_le fun g hg => hroots g (.inl hg)).1
  have hfew := Nat.mul_le_mul (runningNode.ncard_references_le (.object ⟨0⟩)) hobjects
  refine ⟨by decide +kernel, hlimit rfl rfl ?_ ?_ (by decide +kernel)⟩
  · exact hfew.trans_lt (by decide)
  · exact (Nat.succ_le_succ hpairs).trans_lt (by decide)

end TypeContracts
