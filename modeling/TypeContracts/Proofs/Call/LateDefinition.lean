import TypeContracts.Proofs.Call.Denials

/-!
# Answers that outlast definitions

An object type may be declared first and defined later. A rule that needs the
shape of one that is not defined yet fails, and a failure is not cached. So what
was answered before a definition is the truth about the catalog after it
(`answers_resolveWithin_later`), and so is all that the cache holds.
-/

namespace TypeContracts

open Compatibility (related)
open Relation (ReflTransGen)

/-! ## Judgments over an earlier catalog -/

namespace Compatibility

/-- The engine has these options, and its cache holds what is true under them. -/
structure Truthful (c : Catalog) (strict : Bool) (s : Context) : Prop where
  options : s.engine.options.strictNullableSources = strict
  consistent : Consistent c strict s

variable {c₀ c : Catalog} {S : Set Handle} (hclosed : ∀ g ∈ S, ∀ g' ∈ c₀.refs g, g' ∈ S) (hS : ∀ g ∈ S, c₀.Refines c g)
  {j : Judgment} (hj : j ∈ between S)
include hclosed hS hj

theorem answers_resolveWithin_later (strict : Bool) (budget : Nat) :
    Answers c strict (granted c strict) j (resolveWithin c₀ strict budget j) := by
  refine resolveWithin_of_judge (askClosed_between hclosed) answers_reflexive (fun {j ask} hj hr ha => ?_)
    (fun j _ _ => answers_judge (answers_throw _ j _)) budget hj
  -- the rule is that of the earlier catalog, and decides the condition that the later one sets
  have hrule := rule_inquires_later strict (hS _ hj.1) (hS _ hj.2)
  exact answers_judge (answers_inquires hr hrule ha)

theorem keeps_resolve_later (strict : Bool) : Keeps (Truthful c strict) (resolve c₀ j) := by
  refine ⟨resolve_follows c₀ j, ?_⟩
  intro s hs hroom
  obtain ⟨rfl, hc⟩ := hs
  refine ⟨congrArg _ (resolve_follows c₀ j s).options, ?_⟩
  exact (answers_resolveWithin_later hclosed hS hj _ _).consistent hc hroom

end Compatibility

open Compatibility (Truthful)

theorem Conformance.keeps_isType_later {c₀ c : Catalog} {h : Heap} {S : Set Handle}
    (hclosed : ∀ g ∈ S, ∀ g' ∈ c₀.refs g, g' ∈ S) (hS : ∀ g ∈ S, c₀.Refines c g)
    (htags : ∀ f, ∀ tag ∈ (h.function f).tag, .type tag ∈ S) (strict : Bool) (v : Value) {t : TypeRef}
    (ht : .type t ∈ S) : Keeps (Truthful c strict) (isType c₀ h v t) := by
  refine keeps_isType_of_tags (fun hs => hs.consistent.identities) ?_ hclosed htags ?_ v ht
  · intro s ids valueGuard journal hs hids hsound
    exact ⟨hs.options, hs.consistent.of_restored hsound hids (.refl _) fun _ => rfl⟩
  · intro tag t htag ht
    exact Compatibility.keeps_resolve_later (j := .functionTag tag t) hclosed hS ⟨htag, ht⟩ strict

/-! ## Histories -/

section
variable {options : Options} {c : Catalog}

theorem AtRest.step {w w' : World} (hr : AtRest c options w.context) (h : w.Step w') (hgrows : w.catalog.Grows c)
    (hroom : w'.context.identities.HasRoom) : AtRest c options w'.context := by
  have hS : ∀ g, w.catalog.Holds g → w.catalog.Refines c g := fun g hg => hgrows.refines hg
  have hw : Truthful c options.strictNullableSources w.context := ⟨hr.ready.options, hr.ready.consistent⟩
  cases h with
  | judge j hclosed hs ht =>
    have hkeeps := Compatibility.keeps_resolve_later hclosed hS ⟨hs, ht⟩ options.strictNullableSources
    exact hr.of_follows (hkeeps.follows _) (hkeeps.keeps hw hroom).consistent
  | check v t hclosed ht htags =>
    have hkeeps := Conformance.keeps_isType_later hclosed hS htags options.strictNullableSources v ht
    exact hr.of_follows (hkeeps.follows _) (hkeeps.keeps hw hroom).consistent
  | draw g => exact hr.move (h := w.heap) (.draw w.context g) hroom
  | reset => exact hr.reset
  | note journal notifies => exact hr.move (h := w.heap) (.note w.context journal notifies) hroom
  | build => exact hr
  | write heap => exact hr

/-- What an engine has learned while descriptors were in the making is true of all that they can become. -/
theorem World.Attained.atRest {w : World} (hw : w.Attained options) (hgrows : w.catalog.Grows c)
    (hroom : w.context.identities.HasRoom) : AtRest c options w.context := by
  obtain ⟨filter, c₀, h, hsteps⟩ := hw
  induction hsteps with
  | refl => exact atRest_create c options _
  | tail _ hstep ih =>
    obtain ⟨hcatalog, hids⟩ := hstep.move.grows
    exact (ih (hcatalog.trans hgrows) (hids.hasRoom hroom)).step hstep (hcatalog.trans hgrows) hroom

theorem World.Attained.resolve_exact {w : World} {j : Judgment} {b : Bool} (hw : w.Attained options)
    (hgrows : w.catalog.Grows c) (hclosed : w.catalog.Closed) (hs : w.catalog.Holds j.source)
    (ht : w.catalog.Holds j.target) (hb : outcome (Compatibility.resolve w.catalog j w.context) = .ok b)
    (hroom : (stateAfter (Compatibility.resolve w.catalog j w.context)).identities.HasRoom) :
    b = true ↔ j ∈ related c options.strictNullableSources := by
  have hrest := hw.atRest hgrows ((Compatibility.resolve_follows _ j _).identities.hasRoom hroom)
  have hc := hrest.ready.consistent
  rw [← hrest.options] at hc ⊢
  have hanswers := Compatibility.answers_resolveWithin_later (S := { g | w.catalog.Holds g }) hclosed
    (fun g hg => hgrows.refines hg) ⟨hs, ht⟩ w.context.engine.options.strictNullableSources
    w.context.engine.options.subtypeProfile.limits.maxDepth.toNat
  exact (hanswers.verdict hc (outcome_eq_ok.mp hb) hroom).exact hc hrest.ready.idle

/-- An answer given while object types wait for their definition is the one that every engine gives that answers
later, and the cache needs no correction. -/
theorem answers_outlast_definitions {w later : World} (hw : w.Attained options) (hclosed : w.catalog.Closed)
    (hlater : later.Attained options) (hgrows : w.catalog.Grows later.catalog) :
    (∀ source target b b', w.catalog.Holds (.type source) → w.catalog.Holds (.type target) →
      outcome (Action.isCompatible source target w) = .ok b →
      (stateAfter (Action.isCompatible source target w)).context.identities.HasRoom →
      outcome (Action.isCompatible source target later) = .ok b' →
      (stateAfter (Action.isCompatible source target later)).context.identities.HasRoom → b' = b) ∧
    (∀ source target b b', w.catalog.Holds (.signature source) → w.catalog.Holds (.signature target) →
      outcome (Action.areSignaturesCompatible source target w) = .ok b →
      (stateAfter (Action.areSignaturesCompatible source target w)).context.identities.HasRoom →
      outcome (Action.areSignaturesCompatible source target later) = .ok b' →
      (stateAfter (Action.areSignaturesCompatible source target later)).context.identities.HasRoom → b' = b) ∧
    (w.context.identities.HasRoom → ∀ key b, w.context.engine.cache.peek key = some b →
      (∃ j, w.context.identities.IsKey key j) ∧ ∀ j, w.context.identities.IsKey key j →
        (b = true ↔ j ∈ related later.catalog options.strictNullableSources)) := by
  have hall : ∀ j b b', w.catalog.Holds (Judgment.source j) → w.catalog.Holds j.target →
      outcome (Compatibility.resolve w.catalog j w.context) = .ok b →
      (stateAfter (Compatibility.resolve w.catalog j w.context)).identities.HasRoom →
      outcome (Compatibility.resolve later.catalog j later.context) = .ok b' →
      (stateAfter (Compatibility.resolve later.catalog j later.context)).identities.HasRoom → b' = b := by
    intro j b b' hs ht hb hroom hb' hroom'
    have hexact := hw.resolve_exact hgrows hclosed hs ht hb hroom
    have hrest := hlater.atRest (.refl _) ((Compatibility.resolve_follows _ j _).identities.hasRoom hroom')
    have hexact' := hrest.resolve_exact later.context.engine.valueGuard hb' hroom'
    exact Bool.eq_iff_iff.mpr (hexact'.trans hexact.symm)
  refine ⟨?_, ?_, ?_⟩
  · intro source target b b' hs ht hb hroom hb' hroom'
    rw [Action.isCompatible, outcome_check] at hb hb'
    rw [Action.isCompatible, stateAfter_check] at hroom hroom'
    exact hall (.type source target) b b' hs ht hb hroom hb' hroom'
  · intro source target b b' hs ht hb hroom hb' hroom'
    rw [Action.areSignaturesCompatible, outcome_check] at hb hb'
    rw [Action.areSignaturesCompatible, stateAfter_check] at hroom hroom'
    exact hall (.signature source target) b b' hs ht hb hroom hb' hroom'
  · intro hroom key b hp
    have hc := (hw.atRest hgrows hroom).ready.consistent
    obtain ⟨j, hk, -⟩ := hc.cached hp
    exact ⟨⟨j, hk⟩, fun j' hk' => hc.iff_of_peek (.refl _) hc.identities hk' hp⟩

end

/-- Type 1 is declared. Types 2 and 3 refer to it, and only those of type 2 have a number too. -/
def nodeDeclared : Catalog where
  types := #[
    .numeric,
    .object (some "Node") none,
    .object none (some { properties := .ofList [("next", ⟨⟨1⟩, false⟩), ("id", ⟨⟨0⟩, false⟩)] }),
    .object none (some { properties := .ofList [("next", ⟨⟨1⟩, false⟩)] })]

def nodeShape : Shape where
  properties := .ofList [("next", ⟨⟨1⟩, false⟩)]

def nodeDefined : Catalog where
  types := #[
    .numeric,
    .object (some "Node") (some nodeShape),
    .object none (some { properties := .ofList [("next", ⟨⟨1⟩, false⟩), ("id", ⟨⟨0⟩, false⟩)] }),
    .object none (some { properties := .ofList [("next", ⟨⟨1⟩, false⟩)] })]

def nodeAsked : World :=
  let w := World.fresh {} .silent nodeDeclared {}
  { w with context := stateAfter (Compatibility.resolve nodeDeclared (.type ⟨2⟩ ⟨3⟩) w.context) }

theorem nodeDeclared_closed : nodeDeclared.Closed := Catalog.closed_of_indices (by decide) (by decide)

theorem answers_outlast_definitions_node :
    outcome (Action.isCompatible ⟨3⟩ ⟨1⟩ nodeAsked) = .error (.malformed (.undefinedObject (some "Node"))) ∧
      outcome (Action.isCompatible ⟨2⟩ ⟨3⟩ nodeAsked) = .ok true ∧
      outcome (Action.isCompatible ⟨3⟩ ⟨2⟩ nodeAsked) = .ok false ∧
      (∀ b, outcome (Action.isCompatible ⟨3⟩ ⟨2⟩ { nodeAsked with catalog := nodeDefined }) = .ok b → b = false) ∧
      .type ⟨2⟩ ⟨3⟩ ∈ related nodeDefined false := by
  have hasked : ReflTransGen World.Step (World.fresh {} .silent nodeDeclared {}) nodeAsked :=
    .single (.judge _ (.type ⟨2⟩ ⟨3⟩) nodeDeclared_closed (by decide) (by decide))
  have hdefined : nodeDeclared.defineObject ⟨1⟩ nodeShape = .ok nodeDefined := rfl
  have hgrows : nodeDeclared.Grows nodeDefined := .defineObject hdefined
  have hw : nodeAsked.Attained {} := ⟨.silent, nodeDeclared, {}, hasked⟩
  have hlater : { nodeAsked with catalog := nodeDefined }.Attained {} :=
    ⟨.silent, nodeDeclared, {}, hasked.tail (.build hgrows)⟩
  obtain ⟨htypes, -, hcache⟩ := answers_outlast_definitions hw nodeDeclared_closed hlater hgrows
  have hno : outcome (Action.isCompatible ⟨3⟩ ⟨2⟩ nodeAsked) = .ok false := by decide +kernel
  refine ⟨by decide +kernel, by decide +kernel, hno, fun b hb => ?_, ?_⟩
  · exact htypes ⟨3⟩ ⟨2⟩ false b (by decide) (by decide) hno (by decide +kernel) hb (by decide +kernel)
  · obtain ⟨-, hexact⟩ := hcache (by decide +kernel) ⟨.type, ⟨0⟩, ⟨1⟩⟩ true (by decide +kernel)
    exact (hexact (.type ⟨2⟩ ⟨3⟩) ⟨rfl, by decide +kernel, by decide +kernel⟩).mp rfl

end TypeContracts
