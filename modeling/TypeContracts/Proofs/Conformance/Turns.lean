import TypeContracts.Proofs.Conformance.Parts
import TypeContracts.Proofs.Conformance.Verdicts
import TypeContracts.Proofs.Engine.Turns

/-!
# Questions are made of turns

Whatever is asked of it, and however that ends, an engine gets from one question
to the next by turns (`resolve_onward`, `isType_onward`).
-/

namespace TypeContracts

open Relation (ReflTransGen)

/-- The context follows the other, and its engine has got there by turns, with no less in progress at any time. -/
structure Context.Onward (s s' : Context) : Prop where
  follows : s.Follows s'
  turns : s.engine.subtypeGuard.Synced →
    ReflTransGen (Engine.TurnAbove s.engine.subtypeGuard.depth) s.engine s'.engine

namespace Context.Onward

variable {s s₁ s₂ : Context}

theorem refl (s : Context) : Onward s s := ⟨.refl s, fun _ => .refl⟩

theorem trans (h₁ : Onward s s₁) (h₂ : Onward s₁ s₂) : Onward s s₂ := by
  refine ⟨h₁.follows.trans h₂.follows, fun hs => ?_⟩
  have hlater := h₂.turns (h₁.follows.subtypeGuard.synced hs)
  rw [h₁.follows.subtypeGuard.depth hs] at hlater
  exact (h₁.turns hs).trans hlater

theorem path (h : Onward s s₁) (hs : s.engine.subtypeGuard.Synced) :
    ReflTransGen Engine.Turn s.engine s₁.engine :=
  Engine.turns_of_above (h.turns hs)

end Context.Onward

theorem compositional_onward :
    Compositional Set.univ fun m : Check Bool => ∀ s : Context, s.Onward (stateAfter (m s)) :=
  compositional_rel Context.Onward.refl Context.Onward.trans

section
variable {m : Check Bool} (hm : ∀ s : Context, s.Onward (stateAfter (m s)))
include hm

theorem Check.judge_onward (j : Judgment) (s : Context) : s.Onward (stateAfter (Check.judge j m s)) := by
  refine ⟨Check.judge_follows (fun s => (hm s).follows) s, fun hs => ?_⟩
  have hrenewed := s.engine.subtypeGuard.restored_renewed
  have hsingle : ∀ {e'}, Engine.Turn s.engine e' →
      ReflTransGen (Engine.TurnAbove s.engine.subtypeGuard.depth) s.engine e' :=
    fun hturn => .single ⟨Nat.le_refl _, hturn⟩
  -- the key is in progress all along, and so it is when the computation has ended
  have hinner : ∀ {key ids journal r}, s.engine.cache.peek key = none →
      (s.engine.subtypeGuard.renewed.enter key).1 = .entered → m ⟨s.engine.begun key, ids, journal⟩ = r →
      ReflTransGen (Engine.TurnAbove s.engine.subtypeGuard.depth) s.engine (stateAfter r).engine ∧
        s.engine.subtypeGuard.depth ≤ (stateAfter r).engine.subtypeGuard.depth ∧
        (stateAfter r).engine.subtypeGuard.isVisiting key = true := by
    intro key ids journal r hp ha hr
    obtain ⟨-, hdepth, hsynced, hvisit⟩ := Guard.entered ha
    rw [hrenewed.depth hs] at hdepth
    have hbegun := hsynced (hrenewed.synced hs)
    have honward := hm ⟨s.engine.begun key, ids, journal⟩
    rw [hr] at honward
    have hdeeper : s.engine.subtypeGuard.depth ≤ (s.engine.begun key).subtypeGuard.depth :=
      (Nat.le_succ _).trans (Nat.le_of_eq hdepth.symm)
    refine ⟨(hsingle (.begun hp ha)).trans (Engine.turns_above_mono hdeeper (honward.turns hbegun)), ?_, ?_⟩
    · rw [honward.follows.subtypeGuard.depth hbegun]
      exact hdeeper
    · rw [honward.follows.subtypeGuard.visiting hbegun]
      exact (hvisit key).mpr (.inl rfl)
  have hj := Check.judge_judged j m s
  generalize Check.judge j m s = r at hj ⊢
  cases hj with
  | hit journal hk hp => exact hsingle (.found hp)
  | assumed journal hk hp ha => exact hsingle (.assumed hp ha)
  | denied journal hk hp ha => exact hsingle (.denied hp ha)
  | @computed key ids b s' journal journal' hk hp ha hr =>
    obtain ⟨hturns, hdepth, hv⟩ := hinner hp ha hr
    exact hturns.tail ⟨hdepth, .kept hv _ b⟩
  | @failed key ids e s' journal hk hp ha hr =>
    obtain ⟨hturns, hdepth, hv⟩ := hinner hp ha hr
    exact hturns.tail ⟨hdepth, .withheld hv⟩

theorem Conformance.guarded_onward (value : Nat) (t : TypeRef) (s : Context) :
    s.Onward (stateAfter (guarded value t m s)) := by
  refine ⟨guarded_follows (fun s => (hm s).follows) s, fun hs => ?_⟩
  have hentry : ∀ valueGuard, ReflTransGen (Engine.TurnAbove s.engine.subtypeGuard.depth) s.engine
      { s.engine with valueGuard } := fun valueGuard => .single ⟨Nat.le_refl _, .aside valueGuard _⟩
  have hinner : ∀ {i ids r}, m ⟨s.engine.valueTried ⟨value, i⟩, ids, s.journal⟩ = r →
      ReflTransGen (Engine.TurnAbove s.engine.subtypeGuard.depth) s.engine
        ((stateAfter r).engine.valueLeft ⟨value, i⟩) := by
    intro i ids r hr
    have honward := hm ⟨s.engine.valueTried ⟨value, i⟩, ids, s.journal⟩
    rw [hr] at honward
    refine (hentry _).trans ((honward.turns hs).tail ⟨?_, .aside _ _⟩)
    exact Nat.le_of_eq (honward.follows.subtypeGuard.depth hs).symm
  have hg := guarded_guarded value t m s
  generalize guarded value t m s = r at hg ⊢
  cases hg with
  | assumed journal hi ha => exact hentry _
  | denied hi ha => exact hentry _
  | computed hi ha hr => exact hinner hr
  | failed hi ha hr => exact hinner hr

end

namespace Compatibility

variable (c : Catalog)

theorem resolveWithin_onward (strict : Bool) (n : Nat) (j : Judgment) (s : Context) :
    s.Onward (stateAfter (resolveWithin c strict n j s)) := by
  refine resolveWithin_of_judge (P := fun _ m => ∀ s : Context, s.Onward (stateAfter (m s))) (askClosed_univ c)
    (fun _ s => .refl s) ?_ ?_ n (Set.mem_univ j) s
  · intro j ask _ _ ha
    exact Check.judge_onward (rule_of_asked compositional_onward _ ha (Set.subset_univ _)) j
  · intro j _ _
    exact Check.judge_onward (compositional_onward.throw (Set.mem_univ _)) j

theorem resolve_onward (j : Judgment) (s : Context) : s.Onward (stateAfter (resolve c j s)) :=
  resolveWithin_onward c _ _ j s

theorem resolve_eq_judge {j : Judgment} (hj : isReflexive j = false) (s : Context) :
    ∃ m, (∀ s : Context, s.Onward (stateAfter (m s))) ∧ resolve c j s = Check.judge j m s := by
  obtain ⟨m, hm, heq⟩ := resolveWithin_eq_judge c s.engine.options.strictNullableSources
    s.engine.options.subtypeProfile.limits.maxDepth.toNat hj compositional_onward
    (fun n k => resolveWithin_onward c _ n k)
  exact ⟨m, hm, congrFun heq s⟩

end Compatibility

theorem Conformance.isType_onward (c : Catalog) (h : Heap) (v : Value) (t : TypeRef) (s : Context) :
    s.Onward (stateAfter (isType c h v t s)) := by
  revert s
  exact isType_of_parts (S := Set.univ) (V := Set.univ) compositional_onward (by simp) (by simp) (by simp)
    (fun _ _ _ _ hm => guarded_onward hm _ _) (fun _ _ _ _ => Compatibility.resolve_onward c _) (by simp)
    (fun f hf s => hf s s) (by simp) (by simp)

end TypeContracts
