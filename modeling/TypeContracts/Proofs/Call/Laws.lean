import TypeContracts.Proofs.Call.LateDefinition
import TypeContracts.Proofs.Compatibility.Laws

/-!
# Laws between the answers of engines

The laws of the compatibility relation as laws of what engines answer, each
engine with a history of its own. Transitivity rests on how descriptors are
made: a union or an intersection only from members that are there already, so
they nest to a finite depth (`Built.contractive`).
-/

namespace TypeContracts

open Compatibility (related related_strict_subset related_trans)

/-! ## Catalogs in the making -/

namespace Catalog

/-- Descriptors and signatures are made one after the other, each from what is there. Only object types may be
declared first and get their shape later. -/
inductive Built : Catalog → Prop
  | empty : Built {}
  | add {c} (d) : Built c → (∀ g ∈ Descriptor.refs d, c.Holds g) → Built (c.add d).2
  | addSignature {c} (x) : Built c → (∀ g ∈ Signature.refs x, c.Holds g) → Built (c.addSignature x).2
  | defineObject {c d} (t shape) : Built c → (∀ g ∈ Shape.refs shape, c.Holds g) →
      c.defineObject t shape = .ok d → Built d

variable {c : Catalog}

theorem get_of_le {t : TypeRef} (ht : c.types.size ≤ t.index) : c.get t = .never := by
  simp [Catalog.get, Array.getD, Nat.not_lt.mpr ht]

theorem get_defineObject {d : Catalog} {t u : TypeRef} {shape : Shape} (h : c.defineObject t shape = .ok d)
    (hu : d.tag u ≠ .object) : d.get u = c.get u := by
  by_cases hlt : u.index < c.types.size
  · obtain heq | ⟨name, shape, -, hget⟩ := (Grows.defineObject h).get hlt
    · exact heq
    · simp [Catalog.tag, hget, Descriptor.tag] at hu
  · have hsize : d.types.size = c.types.size := by
      unfold Catalog.defineObject at h
      split at h <;> cases h
      simp
    rw [get_of_le (Nat.not_lt.mp hlt), get_of_le (by omega)]

theorem Built.index_lt (hc : c.Built) {t u : TypeRef} (ht : c.tag t ≠ .object) (hu : .type u ∈ c.refs (.type t)) :
    u.index < t.index := by
  induction hc with
  | empty => simp [refs, Catalog.get, Descriptor.refs] at hu
  | @add c d _ hd ih =>
    obtain hlt | heq | hgt := Nat.lt_trichotomy t.index c.types.size
    · simp only [Catalog.tag, refs, get_add_of_lt hlt] at ht hu
      exact ih ht hu
    · have hget : (c.add d).2.get t = d := by
        obtain ⟨i⟩ := t
        subst heq
        exact get_add c d
      rw [refs, hget] at hu
      rw [heq]
      exact hd _ hu
    · rw [refs, get_of_le (by simp [Catalog.add]; omega)] at hu
      cases hu
  | addSignature x _ _ ih => exact ih ht hu
  | defineObject t shape _ _ h ih =>
    have hget := get_defineObject h ht
    simp only [Catalog.tag, refs, hget] at ht hu
    exact ih ht hu

theorem Built.index_le (hc : c.Built) {x : SignatureRef} {u : TypeRef} (hu : .type u ∈ c.refs (.signature x)) :
    u.index ≤ c.types.size := by
  induction hc with
  | empty =>
    -- what is not there reads as the default signature
    have hzero : Handle.type u ∈ [Handle.type ⟨0⟩] := hu
    simp_all
  | add d _ _ ih => exact (ih hu).trans (by simp [Catalog.add])
  | @addSignature c y _ hy ih =>
    by_cases hx : x.index = c.signatures.size
    · have hsignature : (c.addSignature y).2.signature x = y := by
        simp [Catalog.addSignature, Catalog.signature, Array.getD_eq_getD_getElem?, hx]
      rw [refs, hsignature] at hu
      exact Nat.le_of_lt (hy _ hu)
    · have hsignature : (c.addSignature y).2.signature x = c.signature x := by
        simp [Catalog.addSignature, Catalog.signature, Array.getD_eq_getD_getElem?, Array.getElem?_push, hx]
      rw [refs, hsignature] at hu
      exact ih hu
  | defineObject t shape _ _ h ih =>
    unfold Catalog.defineObject at h
    split at h <;> cases h
    simpa using ih hu

/-- Types come after what they are made of, and signatures after all types. -/
def level (c : Catalog) : Handle → Nat
  | .type t => t.index
  | .signature _ => c.types.size + 1

theorem Built.contractive (hc : c.Built) : c.Contractive := by
  refine contractive_of_lt (f := c.level) fun a b ha hb => ?_
  cases a with
  | type t =>
    cases b with
    | type u => exact hc.index_lt ha hb
    | signature y =>
      -- only object types refer to signatures
      simp only [IsObject, Catalog.tag] at ha
      cases hg : c.get t <;> simp [refs, hg, Descriptor.refs, Descriptor.tag] at ha hb
  | signature x =>
    cases b with
    | type u => exact Nat.lt_succ_of_le (hc.index_le hb)
    | signature y => simp [refs, Signature.refs] at hb

end Catalog

/-! ## Histories -/

/-- The world can come about after an engine has been made: first in use while descriptors are made, and then asked
for anything at all about them. -/
def World.Arises (options : Options) (w : World) : Prop :=
  ∃ w₀ : World, w₀.Attained options ∧ w₀.Reachable w ∧ w.catalog = w₀.catalog

section
variable {options : Options} {w : World}

theorem World.Reachable.arises {filter : Log.Filter} {c : Catalog} {h : Heap}
    (hw : (World.fresh options filter c h).Reachable w) (hcatalog : w.catalog = c) : w.Arises options :=
  ⟨_, ⟨filter, c, h, .refl⟩, hw, hcatalog⟩

theorem World.Arises.atRest (hw : w.Arises options) (hroom : w.context.identities.HasRoom) :
    AtRest w.catalog options w.context := by
  obtain ⟨w₀, hattained, hreachable, hcatalog⟩ := hw
  rw [hcatalog]
  exact hreachable.keeps hcatalog hroom (hattained.atRest (.refl _)) fun hm hroom hr => hr.move hm hroom

theorem World.Arises.resolve_exact {j : Judgment} {b : Bool} (hw : w.Arises options)
    (hb : outcome (Compatibility.resolve w.catalog j w.context) = .ok b)
    (hroom : (stateAfter (Compatibility.resolve w.catalog j w.context)).identities.HasRoom) :
    b = true ↔ j ∈ related w.catalog options.strictNullableSources := by
  have hbefore := (Compatibility.resolve_follows w.catalog j w.context).identities.hasRoom hroom
  exact (hw.atRest hbefore).resolve_exact w.context.engine.valueGuard hb hroom

theorem World.Arises.isCompatible_exact {s t : TypeRef} {b : Bool} (hw : w.Arises options)
    (hb : outcome (Action.isCompatible s t w) = .ok b)
    (hroom : (stateAfter (Action.isCompatible s t w)).context.identities.HasRoom) :
    b = true ↔ .type s t ∈ related w.catalog options.strictNullableSources := by
  rw [Action.isCompatible, outcome_check] at hb
  rw [Action.isCompatible, stateAfter_check] at hroom
  exact hw.resolve_exact hb hroom

theorem World.Arises.areSignaturesCompatible_exact {x y : SignatureRef} {b : Bool} (hw : w.Arises options)
    (hb : outcome (Action.areSignaturesCompatible x y w) = .ok b)
    (hroom : (stateAfter (Action.areSignaturesCompatible x y w)).context.identities.HasRoom) :
    b = true ↔ .signature x y ∈ related w.catalog options.strictNullableSources := by
  rw [Action.areSignaturesCompatible, outcome_check] at hb
  rw [Action.areSignaturesCompatible, stateAfter_check] at hroom
  exact hw.resolve_exact hb hroom

end

/-! ## Strict mode -/

/-- What an engine in strict mode finds compatible, an engine in the other mode does not deny. -/
theorem strict_mode_only_removes {strict lax : Options} {w₁ w₂ : World}
    (hstrict : strict.strictNullableSources = true) (hlax : lax.strictNullableSources = false)
    (hw₁ : w₁.Arises strict) (hw₂ : w₂.Arises lax) (hcatalog : w₂.catalog = w₁.catalog) :
    (∀ s t b, outcome (Action.isCompatible s t w₁) = .ok true →
      (stateAfter (Action.isCompatible s t w₁)).context.identities.HasRoom →
      outcome (Action.isCompatible s t w₂) = .ok b →
      (stateAfter (Action.isCompatible s t w₂)).context.identities.HasRoom → b = true) ∧
    (∀ x y b, outcome (Action.areSignaturesCompatible x y w₁) = .ok true →
      (stateAfter (Action.areSignaturesCompatible x y w₁)).context.identities.HasRoom →
      outcome (Action.areSignaturesCompatible x y w₂) = .ok b →
      (stateAfter (Action.areSignaturesCompatible x y w₂)).context.identities.HasRoom → b = true) := by
  have hsubset : related w₁.catalog strict.strictNullableSources ⊆ related w₂.catalog lax.strictNullableSources := by
    rw [hstrict, hlax, hcatalog]
    exact related_strict_subset w₁.catalog
  refine ⟨fun s t b h₁ hroom₁ h₂ hroom₂ => ?_, fun x y b h₁ hroom₁ h₂ hroom₂ => ?_⟩
  · have hrelated := (hw₁.isCompatible_exact h₁ hroom₁).mp rfl
    exact (hw₂.isCompatible_exact h₂ hroom₂).mpr (hsubset hrelated)
  · have hrelated := (hw₁.areSignaturesCompatible_exact h₁ hroom₁).mp rfl
    exact (hw₂.areSignaturesCompatible_exact h₂ hroom₂).mpr (hsubset hrelated)

/-- Endless lists of numbers (type 3) and of numbers that may be missing (type 4), and a signature that returns
each. -/
def nullableLists : Catalog where
  types := #[
    .numeric,
    .null,
    .union [⟨0⟩, ⟨1⟩] none,
    .object none (some { properties := .ofList [("next", ⟨⟨3⟩, false⟩), ("value", ⟨⟨0⟩, false⟩)] }),
    .object none (some { properties := .ofList [("next", ⟨⟨4⟩, false⟩), ("value", ⟨⟨2⟩, false⟩)] })]
  signatures := #[⟨[], 0, none, ⟨3⟩⟩, ⟨[], 0, none, ⟨4⟩⟩]

theorem strict_mode_only_removes_nullableLists :
    let strict := World.fresh { strictNullableSources := true } .silent nullableLists {}
    let lax := World.fresh {} .silent nullableLists {}
    outcome (Action.isCompatible ⟨3⟩ ⟨4⟩ strict) = .ok true ∧
      (∀ b, outcome (Action.isCompatible ⟨3⟩ ⟨4⟩ lax) = .ok b → b = true) ∧
      outcome (Action.areSignaturesCompatible ⟨1⟩ ⟨0⟩ strict) = .ok true ∧
      (∀ b, outcome (Action.areSignaturesCompatible ⟨1⟩ ⟨0⟩ lax) = .ok b → b = true) ∧
      outcome (Action.isCompatible ⟨4⟩ ⟨3⟩ strict) = .ok false ∧
      outcome (Action.isCompatible ⟨4⟩ ⟨3⟩ lax) = .ok true := by
  intro strict lax
  have hstrict : strict.Arises { strictNullableSources := true } := World.Reachable.arises .start rfl
  have hlax : lax.Arises {} := World.Reachable.arises .start rfl
  obtain ⟨htypes, hsignatures⟩ := strict_mode_only_removes rfl rfl hstrict hlax rfl
  have htype : outcome (Action.isCompatible ⟨3⟩ ⟨4⟩ strict) = .ok true := by decide +kernel
  have hsignature : outcome (Action.areSignaturesCompatible ⟨1⟩ ⟨0⟩ strict) = .ok true := by decide +kernel
  refine ⟨htype, fun b hb => ?_, hsignature, fun b hb => ?_, by decide +kernel, by decide +kernel⟩
  · exact htypes ⟨3⟩ ⟨4⟩ b htype (by decide +kernel) hb (by decide +kernel)
  · exact hsignatures ⟨1⟩ ⟨0⟩ b hsignature (by decide +kernel) hb (by decide +kernel)

/-! ## Transitivity -/

/-- Endless lists with a number and a text in each node (type 2), with a number (type 3) and with neither (type 4),
and a text instead of a list of type 3 or of type 4. -/
def forkedLists : Catalog where
  types := #[
    .numeric,
    .string,
    .object none (some { properties := .ofList [("next", ⟨⟨2⟩, false⟩), ("id", ⟨⟨0⟩, false⟩), ("name", ⟨⟨1⟩, false⟩)] }),
    .object none (some { properties := .ofList [("next", ⟨⟨3⟩, false⟩), ("id", ⟨⟨0⟩, false⟩)] }),
    .object none (some { properties := .ofList [("next", ⟨⟨4⟩, false⟩)] }),
    .union [⟨1⟩, ⟨3⟩] none,
    .union [⟨1⟩, ⟨4⟩] none]

theorem forkedLists_built : forkedLists.Built := by
  have h := Catalog.Built.empty
  have h := h.add .numeric (by decide)
  have h := h.add .string (by decide)
  have h := h.add (.object none none) (by decide)
  have h := h.add (.object none none) (by decide)
  have h := h.add (.object none none) (by decide)
  have h := h.defineObject ⟨2⟩ { properties := .ofList [("next", ⟨⟨2⟩, false⟩), ("id", ⟨⟨0⟩, false⟩),
    ("name", ⟨⟨1⟩, false⟩)] } (by decide) rfl
  have h := h.defineObject ⟨3⟩ { properties := .ofList [("next", ⟨⟨3⟩, false⟩), ("id", ⟨⟨0⟩, false⟩)] }
    (by decide) rfl
  have h := h.defineObject ⟨4⟩ { properties := .ofList [("next", ⟨⟨4⟩, false⟩)] } (by decide) rfl
  have h := h.add (.union [⟨1⟩, ⟨3⟩] none) (by decide)
  exact h.add (.union [⟨1⟩, ⟨4⟩] none) (by decide)

theorem forkedLists_anyFree (t : TypeRef) : forkedLists.AnyFree t := by
  intro u _
  match u with
  | ⟨0⟩ | ⟨1⟩ | ⟨2⟩ | ⟨3⟩ | ⟨4⟩ | ⟨5⟩ | ⟨6⟩ => exact nofun
  | ⟨i + 7⟩ => simp [forkedLists, Catalog.get]

theorem forkedLists_definite : forkedLists.Definite ⟨6⟩ := by
  have hall : ∀ g, forkedLists.Reaches (.type ⟨6⟩) g → g ∈ [Handle.type ⟨6⟩, .type ⟨4⟩, .type ⟨1⟩] := by
    intro g hg
    induction hg with
    | refl => decide
    | tail _ hstep ih =>
      have hclosed : ∀ a ∈ [Handle.type ⟨6⟩, .type ⟨4⟩, .type ⟨1⟩], ∀ g ∈ forkedLists.refs a,
          g ∈ [Handle.type ⟨6⟩, .type ⟨4⟩, .type ⟨1⟩] := by decide
      exact hclosed _ ih _ hstep
  refine ⟨fun x hx => ?_, fun {u shape} hu hshape => ?_⟩
  · simpa using hall _ hx
  · have hu := hall _ hu
    simp only [List.mem_cons, Handle.type.injEq, List.not_mem_nil, or_false] at hu
    obtain rfl | rfl | rfl := hu <;> cases hshape
    decide

end TypeContracts
