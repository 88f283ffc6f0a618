import TypeContracts.Proofs.Call.Runs

/-!
# Exact answers after any history

Whatever an engine has been asked before, failed calls included, its cache
holds the truth and its answers are the truth, as long as the descriptors stay
as they are. All of it is said with room left for identities: their counter has
32 bits, and once it has wrapped two descriptors may share a number.
-/

namespace TypeContracts

open Compatibility (related)
open Conformance (conforming)

section
variable {α : Type} (f : Catalog → Heap → Check α) (w : World)

theorem outcome_check : outcome (Action.check f w) = outcome (f w.catalog w.heap w.context) := by
  unfold Action.check
  cases f w.catalog w.heap w.context <;> rfl

theorem stateAfter_check :
    stateAfter (Action.check f w) = { w with context := stateAfter (f w.catalog w.heap w.context) } := by
  unfold Action.check
  cases f w.catalog w.heap w.context <;> rfl

end

theorem catalog_performWithin_isCompatible (budget : Nat) (source target : TypeRef) (w : World) :
    (stateAfter (Action.performWithin budget (.isCompatible source target) w)).catalog = w.catalog := by
  have hperform : Action.performWithin budget (.isCompatible source target) =
      Action.isCompatible source target >>= fun b => pure (.verdict b) := rfl
  rw [hperform, stateAfter_bind_pure, Action.isCompatible, stateAfter_check]

section
variable {c : Catalog} {h : Heap} {options : Options} {s : Context} {b : Bool}

theorem AtRest.resolve_exact {j : Judgment} (hr : AtRest c options s) (guard : Guard ValueCheck)
    (hb : outcome (Compatibility.resolve c j { s with engine := { s.engine with valueGuard := guard } }) = .ok b)
    (hroom : (stateAfter (Compatibility.resolve c j { s with engine := { s.engine with valueGuard := guard } })
      ).identities.HasRoom) : b = true ↔ j ∈ related c options.strictNullableSources := by
  have hc := hr.ready.consistent
  rw [← hr.ready.options] at hc ⊢
  exact Compatibility.resolve_exact
    (s := { s with engine := { s.engine with valueGuard := guard } })
    ⟨hc.identities, hc.synced, hc.cached, hc.visiting⟩ hr.ready.idle (outcome_eq_ok.mp hb) hroom

end

section
variable {options : Options} {filter : Log.Filter} {c : Catalog} {h : Heap} {w : World}

theorem World.Reachable.resolve_exact {j : Judgment} {b : Bool} (hw : (World.fresh options filter c h).Reachable w)
    (hcatalog : w.catalog = c) (hb : outcome (Compatibility.resolve c j w.context) = .ok b)
    (hroom : (stateAfter (Compatibility.resolve c j w.context)).identities.HasRoom) :
    b = true ↔ j ∈ related c options.strictNullableSources := by
  have hbefore := (Compatibility.resolve_follows c j w.context).identities.hasRoom hroom
  exact (hw.atRest hcatalog hbefore).resolve_exact w.context.engine.valueGuard hb hroom

theorem World.Reachable.isCompatible_exact {source target : TypeRef} {b : Bool}
    (hw : (World.fresh options filter c h).Reachable w) (hcatalog : w.catalog = c)
    (hb : outcome (Action.isCompatible source target w) = .ok b)
    (hroom : (stateAfter (Action.isCompatible source target w)).context.identities.HasRoom) :
    b = true ↔ .type source target ∈ related c options.strictNullableSources := by
  rw [Action.isCompatible, outcome_check, hcatalog] at hb
  rw [Action.isCompatible, stateAfter_check, hcatalog] at hroom
  exact hw.resolve_exact hcatalog hb hroom

section
variable {v : Value} {t : TypeRef} {b : Bool} (hw : (World.fresh options filter c h).Reachable w)
  (hcatalog : w.catalog = c) (hb : outcome (Action.isType v t w) = .ok b)
  (hroom : (stateAfter (Action.isType v t w)).context.identities.HasRoom)
include hw hcatalog hb hroom

/-- A value check asked of a world is one in its context, with the engine at rest. -/
theorem World.Reachable.isType_run :
    AtRest c options w.context ∧ outcome (Conformance.isType c w.heap v t w.context) = .ok b ∧
      (stateAfter (Conformance.isType c w.heap v t w.context)).identities.HasRoom := by
  rw [Action.isType, outcome_check, hcatalog] at hb
  rw [Action.isType, stateAfter_check, hcatalog] at hroom
  have hbefore := (Conformance.isType_follows c w.heap v t w.context).identities.hasRoom hroom
  exact ⟨hw.atRest hcatalog hbefore, hb, hroom⟩

theorem World.Reachable.isType_exact :
    b = true ↔ (v, t) ∈ conforming c w.heap options.strictNullableSources := by
  obtain ⟨hrest, hb, hroom⟩ := hw.isType_run hcatalog hb hroom
  exact Conformance.isType_exact hrest.ready hrest.idle (outcome_eq_ok.mp hb) hroom

theorem World.Reachable.mem_settled (hyes : b = true) :
    (v, t) ∈ Conformance.settled c w.heap options.strictNullableSources := by
  subst hyes
  obtain ⟨hrest, hb, hroom⟩ := hw.isType_run hcatalog hb hroom
  exact Conformance.mem_settled_of_isType hrest.ready hrest.idle (outcome_eq_ok.mp hb) hroom

end

/-- Every entry of the cache and every answer to a judgment is right. Tags are matched in the middle of value
checks, whatever the guard of these holds. -/
theorem verdicts_exact (hw : (World.fresh options filter c h).Reachable w) (hcatalog : w.catalog = c) :
    (w.context.identities.HasRoom → ∀ key b, w.context.engine.cache.peek key = some b →
      (∃ j, w.context.identities.IsKey key j) ∧
        ∀ j, w.context.identities.IsKey key j → (b = true ↔ j ∈ related c options.strictNullableSources)) ∧
    (∀ source target b, outcome (Action.isCompatible source target w) = .ok b →
      (stateAfter (Action.isCompatible source target w)).context.identities.HasRoom →
      (b = true ↔ .type source target ∈ related c options.strictNullableSources)) ∧
    (∀ source target b, outcome (Action.areSignaturesCompatible source target w) = .ok b →
      (stateAfter (Action.areSignaturesCompatible source target w)).context.identities.HasRoom →
      (b = true ↔ .signature source target ∈ related c options.strictNullableSources)) ∧
    ∀ tag target valueGuard b,
      outcome (Compatibility.tagMatches c tag target
        { w.context with engine := { w.context.engine with valueGuard } }) = .ok b →
      (stateAfter (Compatibility.tagMatches c tag target
        { w.context with engine := { w.context.engine with valueGuard } })).identities.HasRoom →
      (b = true ↔ .functionTag tag target ∈ related c options.strictNullableSources) := by
  refine ⟨fun hroom key b hp => ?_, fun source target b hb hroom => ?_, fun source target b hb hroom => ?_,
    fun tag target guard b hb hroom => ?_⟩
  · have hc := (hw.atRest hcatalog hroom).ready.consistent
    obtain ⟨j, hk, -⟩ := hc.cached hp
    exact ⟨⟨j, hk⟩, fun j' hk' => hc.iff_of_peek (.refl _) hc.identities hk' hp⟩
  · exact hw.isCompatible_exact hcatalog hb hroom
  · rw [Action.areSignaturesCompatible, outcome_check, hcatalog] at hb
    rw [Action.areSignaturesCompatible, stateAfter_check, hcatalog] at hroom
    exact hw.resolve_exact hcatalog hb hroom
  · have hbefore := (Compatibility.resolve_follows c (.functionTag tag target) _).identities.hasRoom hroom
    exact (hw.atRest hcatalog hbefore).resolve_exact guard hb hroom

end

/-- Two sorts of linked lists that never end: those of type 1 have a number in each node, those of type 2 need
not. -/
def endlessLists : Catalog where
  types := #[
    .numeric,
    .object none (some { properties := .ofList [("next", ⟨⟨1⟩, false⟩), ("id", ⟨⟨0⟩, false⟩)] }),
    .object none (some { properties := .ofList [("next", ⟨⟨2⟩, false⟩)] })]

def endlessListsAsked : World :=
  stateAfter (Action.perform (.isCompatible ⟨2⟩ ⟨1⟩) (World.fresh {} .silent endlessLists {}))

theorem verdicts_exact_endlessLists :
    outcome (Action.isCompatible ⟨1⟩ ⟨2⟩ endlessListsAsked) = .ok true ∧
      outcome (Action.isCompatible ⟨2⟩ ⟨1⟩ endlessListsAsked) = .ok false ∧
      .type ⟨1⟩ ⟨2⟩ ∈ related endlessLists false ∧ .type ⟨2⟩ ⟨1⟩ ∉ related endlessLists false := by
  have hw : (World.fresh {} .silent endlessLists {}).Reachable endlessListsAsked := .performed _ _ .start
  have hexact := (verdicts_exact hw (catalog_performWithin_isCompatible _ _ _ _)).2.1
  have hyes : outcome (Action.isCompatible ⟨1⟩ ⟨2⟩ endlessListsAsked) = .ok true := by decide +kernel
  have hno : outcome (Action.isCompatible ⟨2⟩ ⟨1⟩ endlessListsAsked) = .ok false := by decide +kernel
  refine ⟨hyes, hno, (hexact _ _ _ hyes (by decide +kernel)).mp rfl, fun hrel => ?_⟩
  have hfalse := (hexact _ _ _ hno (by decide +kernel)).mpr hrel
  cases hfalse

section
variable {options : Options} {filter : Log.Filter} {c : Catalog} {h : Heap} {w : World}

/-- A value check answers exactly whether the value conforms, so two engines that both answer agree. -/
theorem conformance_exact {v : Value} {t : TypeRef} {b : Bool} (hw : (World.fresh options filter c h).Reachable w)
    (hcatalog : w.catalog = c) (hb : outcome (Action.isType v t w) = .ok b)
    (hroom : (stateAfter (Action.isType v t w)).context.identities.HasRoom) :
    (b = true ↔ (v, t) ∈ conforming c w.heap options.strictNullableSources) ∧
      ∀ filter' h' w', (World.fresh options filter' c h').Reachable w' → w'.catalog = c → w'.heap = w.heap →
        ∀ b', outcome (Action.isType v t w') = .ok b' →
          (stateAfter (Action.isType v t w')).context.identities.HasRoom → b' = b := by
  have hexact := hw.isType_exact hcatalog hb hroom
  refine ⟨hexact, fun filter' h' w' hw' hcatalog' hheap b' hb' hroom' => ?_⟩
  have hexact' := hw'.isType_exact hcatalog' hb' hroom'
  rw [hheap, ← hexact] at hexact'
  exact Bool.eq_iff_iff.mpr hexact'

end

def ownSuccessor : Heap where
  objects := #[{ properties := .ofList [("next", .object ⟨0⟩), ("id", .number (.ofNat 5))] },
    { properties := .ofList [("next", .object ⟨0⟩)] }]

theorem conformance_exact_ownSuccessor :
    outcome (Action.isType (.object ⟨0⟩) ⟨1⟩ (World.fresh {} .silent endlessLists ownSuccessor)) = .ok true ∧
      outcome (Action.isType (.object ⟨1⟩) ⟨1⟩ (World.fresh {} .silent endlessLists ownSuccessor)) = .ok false ∧
      (.object ⟨0⟩, ⟨1⟩) ∈ conforming endlessLists ownSuccessor false ∧
      (.object ⟨1⟩, ⟨1⟩) ∉ conforming endlessLists ownSuccessor false := by
  have hyes : outcome (Action.isType (.object ⟨0⟩) ⟨1⟩ (World.fresh {} .silent endlessLists ownSuccessor)) = .ok true := by
    decide +kernel
  have hno : outcome (Action.isType (.object ⟨1⟩) ⟨1⟩ (World.fresh {} .silent endlessLists ownSuccessor)) = .ok false := by
    decide +kernel
  refine ⟨hyes, hno, ?_, fun hmem => ?_⟩
  · exact (conformance_exact .start rfl hyes (by decide +kernel)).1.mp rfl
  · have hfalse := (conformance_exact .start rfl hno (by decide +kernel)).1.mpr hmem
    cases hfalse

end TypeContracts
