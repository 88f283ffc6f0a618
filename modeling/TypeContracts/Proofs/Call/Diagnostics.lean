import TypeContracts.Proofs.Call.Boundary
import TypeContracts.Proofs.Descriptor.Formatting

/-!
# Diagnostics

A failed assertion and a rejected call say which types they are about. Writing
these down ends, on cycles too, and can be repeated: nothing is drawn or opened
that was not there before.
-/

namespace TypeContracts

open Catalog (Visit Writes)
open Relation (ReflTransGen TransGen)

theorem identities_assertType (c : Catalog) (h : Heap) (v : Value) (t : TypeRef) (location : Location) (s : Context) :
    (stateAfter (assertType c h v t location s)).identities = (stateAfter (Conformance.isType c h v t s)).identities := by
  unfold assertType
  cases hrun : Conformance.isType c h v t s with
  | error e s' =>
    rw [bind_error.mpr (.inl hrun)]
    rfl
  | ok b s' =>
    rw [bind_of_ok hrun]
    cases b with
    | true => rfl
    | false =>
      obtain ⟨journal, hviolate, -⟩ := Check.violate_run (α := Value) ("Value:\n" ++ h.valueText c v ++
        "\nis not assignable to type:\n" ++ c.typeText t) location s'
      rw [if_neg Bool.false_ne_true]
      rw [hviolate]
      rfl

section
variable {c : Catalog}

/-- Where every cycle passes through an object type, a formatter in any state writes the text of a type or signature
and is then in that state again, so that it can be used again like a fresh one. A marker stands for an unnamed object
type exactly where that type is open already. A fresh formatter writes one exactly if an unnamed object type that is
shown shows itself. No identity is drawn for what a failed check says. -/
theorem diagnostics_cycle_safe (hc : c.Contractive) :
    (∀ visiting g, ∃ (text : TypeRef → String) (visits : TypeRef → List Visit),
      (c.format g).run visiting = (c.frame text g, visiting) ∧
      ∀ t ∈ c.roots g, Writes c [] 0 t (text t) (visits t) ∧
        (∀ x ∈ visits t, x.marked = true ↔
          (c.get x.type).isBlock = true ∧ (x.type ∈ visiting ∨ x.type ∈ x.path)) ∧
        (visiting = [] → ((∃ x ∈ visits t, x.marked = true) ↔
          ∃ o shape, c.get o = .object none shape ∧ ReflTransGen c.Shows t o ∧ TransGen c.Shows o o)) ∧
        ∀ budget, c.textBudget ≤ budget → (c.typeTextWithin budget 0 t).run visiting = (text t, visiting)) ∧
    (∀ items : List Handle, (items.mapM c.format).run [] = (items.map c.text, [])) ∧
    ∀ h s, (∀ v t location, (stateAfter (assertType c h v t location s)).identities =
        (stateAfter (Conformance.isType c h v t s)).identities) ∧
      ∀ tag arguments, (stateAfter (checkBoundary c h tag arguments s)).identities =
        (stateAfter (acceptsCall c h tag arguments s)).identities := by
  refine ⟨fun visiting g => ?_, hc.format_again, fun h s => ⟨?_, ?_⟩⟩
  · choose text visits hw hright hrun using hc.writes visiting
    refine ⟨text, visits, Catalog.leaves_format fun t _ => hrun t _ (Nat.le_refl _), fun t _ => ?_⟩
    refine ⟨hw t, hright t, ?_, hrun t⟩
    rintro rfl
    exact (hw t).marked_iff (hright t)
  · exact fun v t location => identities_assertType c h v t location s
  · exact fun tag arguments => (checkBoundary_run tag arguments s).2

end

/-- Type 0 is unnamed and takes part in itself by a union, next to a named type that does the same. -/
def ringOfTypes : Catalog where
  types := #[
    .object none (some { callSignatures := [⟨0⟩], properties := .ofList [("next", ⟨⟨1⟩, false⟩)] }),
    .union [⟨0⟩, ⟨2⟩] none,
    .object (some "Tree") (some { properties := .ofList [("child", ⟨⟨2⟩, true⟩)] })]
  signatures := #[⟨[⟨1⟩], 1, none, ⟨2⟩⟩]

theorem ringOfTypes_contractive : ringOfTypes.Contractive := by
  let level : Handle → Nat
    | .signature _ => 2
    | .type t => if t = ⟨1⟩ then 1 else 0
  refine Catalog.contractive_of_lt (f := level) fun a b ha hb => ?_
  match a with
  | .signature x =>
    cases b with
    | signature y => simp [Catalog.refs, Signature.refs] at hb
    | type t =>
      simp only [level]
      split <;> decide
  | .type ⟨0⟩ | .type ⟨2⟩ => exact absurd rfl ha
  | .type ⟨1⟩ =>
    revert b
    decide
  | .type ⟨i + 3⟩ => simp [Catalog.refs, Catalog.get, ringOfTypes, Descriptor.refs] at hb

theorem diagnostics_cycle_safe_ring :
    ringOfTypes.typeText ⟨0⟩ =
      "\x7b\n  (([circular type] | Tree)) => Tree;\n  \"next\": ([circular type] | Tree),\n\x7d" ∧
    ([.type ⟨0⟩, .signature ⟨0⟩, .type ⟨0⟩].mapM ringOfTypes.format).run [] =
      ([Handle.type ⟨0⟩, .signature ⟨0⟩, .type ⟨0⟩].map ringOfTypes.text, []) ∧
    ∃ text visits, (ringOfTypes.formatType ⟨0⟩).run [] = (text, []) ∧ Writes ringOfTypes [] 0 ⟨0⟩ text visits ∧
      ∃ x ∈ visits, x.marked = true := by
  obtain ⟨hwrites, hagain, -⟩ := diagnostics_cycle_safe ringOfTypes_contractive
  refine ⟨by decide +kernel, hagain _, ?_⟩
  obtain ⟨text, visits, hrun, hroots⟩ := hwrites [] (.type ⟨0⟩)
  obtain ⟨hw, -, hmarked, -⟩ := hroots ⟨0⟩ (List.mem_singleton_self _)
  have hdown : ringOfTypes.Shows ⟨0⟩ ⟨1⟩ := by
    unfold Catalog.Shows
    decide
  have hback : ringOfTypes.Shows ⟨1⟩ ⟨0⟩ := by
    unfold Catalog.Shows
    decide
  exact ⟨text ⟨0⟩, visits ⟨0⟩, hrun, hw, (hmarked rfl).mpr ⟨⟨0⟩, _, rfl, .refl, .tail (.single hdown) hback⟩⟩

end TypeContracts
