import TypeContracts.Proofs.Call.Exactness
import TypeContracts.Proofs.Compatibility.Ending

/-!
# What the history of an engine can change

Two engines with different histories never give opposite answers, but one may
fail where the other answers: what is cached or in progress decides how far a
rule gets, and so whether it reaches a type that cannot be checked. For types
from which no such type can be reached the history makes no difference.
-/

namespace TypeContracts

/-! ## How judgments fail -/

/-- No type that cannot be checked can be reached. -/
def Catalog.Answerable (c : Catalog) (t : TypeRef) : Prop :=
  ∀ u, c.Reaches (.type t) (.type u) →
    c.tag u ≠ .typeParameter ∧ c.tag u ≠ .intersection ∧ ∀ name, c.get u ≠ .object name none

theorem Catalog.Answerable.not_blames {c : Catalog} {t u : TypeRef} (ht : c.Answerable t)
    (hu : c.Reaches (.type t) (.type u)) (e : Failure) : ¬ c.Blames u e := by
  obtain ⟨hp, hi, hobject⟩ := ht u hu
  intro hb
  cases e with
  | unsupportedTypeParameter => exact hp hb
  | unsupportedIntersectionSource => exact hi hb
  | malformed cause =>
    cases cause with
    | undefinedObject name => exact hobject name hb
    | _ => exact hb
  | _ => exact hb

theorem error_of_answerable {c : Catalog} {s t : TypeRef} (hs : c.Answerable s) (ht : c.Answerable t)
    {ctx ctx' : Context} {e : Failure} (h : Compatibility.isCompatible c s t ctx = .error e ctx') :
    e = .recursionLimit .relatingTypes := by
  let S : Set Handle := { g | c.Reaches (.type s) g ∨ c.Reaches (.type t) g }
  have hS : ∀ g ∈ S, ∀ g' ∈ c.refs g, g' ∈ S := fun g hg g' hg' =>
    hg.imp (fun hr => hr.tail hg') fun hr => hr.tail hg'
  have hblames : ∀ u, .type u ∈ S → ¬ c.Blames u e := by
    rintro u (hu | hu)
    · exact hs.not_blames hu e
    · exact ht.not_blames hu e
  have hst : Judgment.type s t ∈ Judgment.among S := ⟨.inl .refl, .inr .refl⟩
  obtain he | ⟨k, hk, he⟩ := Compatibility.resolveWithin_error (Compatibility.askClosed_among hS) hst h
  · exact he
  · cases k with
    | type a b => exact (he.elim (hblames a hk.1) (hblames b hk.2)).elim
    | signature x y => exact he.elim
    | functionTag tag target => exact hk.elim

/-! ## Two engines -/

/-- Failures of one sort, whatever they say in detail. -/
def Failure.alike : Failure → Failure → Bool
  | violation _, violation _ => true
  | unsupportedTypeParameter, unsupportedTypeParameter => true
  | unsupportedIntersectionSource, unsupportedIntersectionSource => true
  | malformed _, malformed _ => true
  | recursionLimit _, recursionLimit _ => true
  | notCallable _, notCallable _ => true
  | thrown _, thrown _ => true
  | _, _ => false

def Agree : Except Failure Bool → Except Failure Bool → Prop
  | .ok b₁, .ok b₂ => b₁ = b₂
  | .error e₁, .error e₂ => e₁.alike e₂ = true
  | _, _ => False

section
variable {options : Options} {filter₁ filter₂ : Log.Filter} {c : Catalog} {h₁ h₂ : Heap} {w₁ w₂ : World}
  {s t : TypeRef}

theorem ok_of_answerable {w : World} (hcatalog : w.catalog = c) (hs : c.Answerable s) (ht : c.Answerable t)
    (hlimit : outcome (Action.isCompatible s t w) ≠ .error (.recursionLimit .relatingTypes)) :
    ∃ b, outcome (Action.isCompatible s t w) = .ok b := by
  rw [Action.isCompatible, outcome_check, hcatalog] at hlimit ⊢
  cases hr : Compatibility.isCompatible c s t w.context with
  | ok b s' => exact ⟨b, rfl⟩
  | error e s' =>
    rw [hr, error_of_answerable hs ht hr] at hlimit
    exact absurd rfl hlimit

/-- Two engines with the same options agree on a judgment exactly when both answer it or both fail in the same
way. They do so whenever nothing that cannot be checked can be reached and no limit is met. -/
theorem histories_agree_iff (hw₁ : (World.fresh options filter₁ c h₁).Reachable w₁) (hc₁ : w₁.catalog = c)
    (hroom₁ : (stateAfter (Action.isCompatible s t w₁)).context.identities.HasRoom)
    (hw₂ : (World.fresh options filter₂ c h₂).Reachable w₂) (hc₂ : w₂.catalog = c)
    (hroom₂ : (stateAfter (Action.isCompatible s t w₂)).context.identities.HasRoom) :
    (Agree (outcome (Action.isCompatible s t w₁)) (outcome (Action.isCompatible s t w₂)) ↔
      ((∃ b, outcome (Action.isCompatible s t w₁) = .ok b) ↔ ∃ b, outcome (Action.isCompatible s t w₂) = .ok b) ∧
        ∀ e₁ e₂, outcome (Action.isCompatible s t w₁) = .error e₁ → outcome (Action.isCompatible s t w₂) = .error e₂ →
          e₁.alike e₂ = true) ∧
    (c.Answerable s → c.Answerable t →
      outcome (Action.isCompatible s t w₁) ≠ .error (.recursionLimit .relatingTypes) →
      outcome (Action.isCompatible s t w₂) ≠ .error (.recursionLimit .relatingTypes) →
      ∃ b, outcome (Action.isCompatible s t w₁) = .ok b ∧ outcome (Action.isCompatible s t w₂) = .ok b) := by
  have hsame : ∀ b₁ b₂, outcome (Action.isCompatible s t w₁) = .ok b₁ →
      outcome (Action.isCompatible s t w₂) = .ok b₂ → b₁ = b₂ := fun b₁ b₂ hb₁ hb₂ => by
    have he₁ := hw₁.isCompatible_exact hc₁ hb₁ hroom₁
    have he₂ := hw₂.isCompatible_exact hc₂ hb₂ hroom₂
    exact Bool.eq_iff_iff.mpr (he₁.trans he₂.symm)
  constructor
  · cases hr₁ : outcome (Action.isCompatible s t w₁) with
    | ok b₁ =>
      cases hr₂ : outcome (Action.isCompatible s t w₂) with
      | ok b₂ => simpa [Agree] using hsame b₁ b₂ hr₁ hr₂
      | error e₂ => simp [Agree]
    | error e₁ =>
      cases hr₂ : outcome (Action.isCompatible s t w₂) with
      | ok b₂ => simp [Agree]
      | error e₂ => simp [Agree]
  · intro hs ht hlimit₁ hlimit₂
    obtain ⟨b₁, hb₁⟩ := ok_of_answerable hc₁ hs ht hlimit₁
    obtain ⟨b₂, hb₂⟩ := ok_of_answerable hc₂ hs ht hlimit₂
    exact ⟨b₁, hb₁, hsame b₁ b₂ hb₁ hb₂ ▸ hb₂⟩

end

theorem histories_agree_endlessLists :
    ∃ b, outcome (Action.isCompatible ⟨1⟩ ⟨2⟩ (World.fresh {} .silent endlessLists {})) = .ok b ∧
      outcome (Action.isCompatible ⟨1⟩ ⟨2⟩ endlessListsAsked) = .ok b := by
  have hall : ∀ t, endlessLists.Answerable t := by
    rintro t ⟨i⟩ -
    match i with
    | 0 | 1 | 2 => exact ⟨by decide, by decide, nofun⟩
    | i + 3 => exact ⟨by simp [endlessLists, Catalog.tag, Catalog.get, Descriptor.tag],
        by simp [endlessLists, Catalog.tag, Catalog.get, Descriptor.tag], by simp [endlessLists, Catalog.get]⟩
  have hw₁ : (World.fresh {} .silent endlessLists {}).Reachable (World.fresh {} .silent endlessLists {}) := .start
  have hw₂ : (World.fresh {} .silent endlessLists {}).Reachable endlessListsAsked := .performed _ _ .start
  exact (histories_agree_iff hw₁ rfl (by decide +kernel) hw₂ (catalog_performWithin_isCompatible _ _ _ _)
    (by decide +kernel)).2 (hall _) (hall _) (by decide +kernel) (by decide +kernel)

/-- Types 3 and 4 refer to types 5 and 6 and these back to them. Types 3 and 4 differ in `q`, and type 6 has a
type parameter in `e`. -/
def crossed : Catalog where
  types := #[
    .numeric,
    .string,
    .typeParameter (some "T"),
    .object none (some { properties := .ofList [("m", ⟨⟨5⟩, false⟩), ("q", ⟨⟨0⟩, false⟩)] }),
    .object none (some { properties := .ofList [("m", ⟨⟨6⟩, false⟩), ("q", ⟨⟨1⟩, false⟩)] }),
    .object none (some { properties := .ofList [("r", ⟨⟨3⟩, false⟩), ("e", ⟨⟨0⟩, false⟩)] }),
    .object none (some { properties := .ofList [("r", ⟨⟨4⟩, false⟩), ("e", ⟨⟨2⟩, false⟩)] })]

/-- A fresh engine meets the type parameter. One that has been asked about types 5 and 6 before has found on the
way that types 3 and 4 are not related, and answers from its cache. -/
theorem histories_disagree_crossed :
    ∃ w, (World.fresh {} .silent crossed {}).Reachable w ∧ w.catalog = crossed ∧
      outcome (Action.isCompatible ⟨3⟩ ⟨4⟩ (World.fresh {} .silent crossed {})) = .error .unsupportedTypeParameter ∧
      outcome (Action.isCompatible ⟨3⟩ ⟨4⟩ w) = .ok false ∧
      ¬ Agree (outcome (Action.isCompatible ⟨3⟩ ⟨4⟩ (World.fresh {} .silent crossed {})))
        (outcome (Action.isCompatible ⟨3⟩ ⟨4⟩ w)) := by
  have he : outcome (Action.isCompatible ⟨3⟩ ⟨4⟩ (World.fresh {} .silent crossed {})) =
      .error .unsupportedTypeParameter := by decide +kernel
  have hb : outcome (Action.isCompatible ⟨3⟩ ⟨4⟩
      (stateAfter (Action.performWithin 0 (.isCompatible ⟨5⟩ ⟨6⟩) (World.fresh {} .silent crossed {})))) = .ok false := by
    decide +kernel
  refine ⟨_, .performed 0 (.isCompatible ⟨5⟩ ⟨6⟩) .start, catalog_performWithin_isCompatible _ _ _ _, he, hb, ?_⟩
  rw [he, hb]
  exact id

end TypeContracts
