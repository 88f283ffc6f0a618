import TypeContracts.Proofs.Call.Denials
import TypeContracts.Proofs.Document.Copies
import TypeContracts.Proofs.Document.Reading

/-!
# Copies are compatible

Descriptors that were decoded twice from one document can stand for each other,
in whatever state the engine is. The only other way a question about them can
end is at a limit.
-/

namespace TypeContracts

open Document
open Relation (ReflTransGen)

/-- As long as there is room for identities, the run answers yes or ends at a limit. -/
def Accepts (r : EStateM.Result Failure World Bool) : Prop :=
  (stateAfter r).context.identities.HasRoom →
    outcome r = .ok true ∨ outcome r = .error (.recursionLimit .relatingTypes)

section
variable {d : Document} {c cA cB : Catalog} {A B : TypeTable} (hA : Faithful d cA A c) (hB : Faithful d cB B c)
include hA hB

/-- Signatures in the same place of copies of an object type state the same. -/
theorem signature_of_shapes {i k : Nat} {s t : TypeRef} {source target : Shape} {x y : SignatureRef}
    (hs : A.get? i = some s) (ht : B.get? i = some t) (hsource : c.shape s = .ok source)
    (htarget : c.shape t = .ok target)
    (hxy : source.callSignatures[k]? = some x ∧ target.callSignatures[k]? = some y ∨
      source.constructSignatures[k]? = some x ∧ target.constructSignatures[k]? = some y) :
    ∃ e, SignatureRepresented c A.get? e x ∧ SignatureRepresented c B.get? e y := by
  obtain ⟨o, ho, hA'⟩ := hA.shape hs hsource
  obtain ⟨o', ho', hB'⟩ := hB.shape ht htarget
  obtain rfl : o = o' := by
    rw [ho] at ho'
    cases ho'
    rfl
  rcases hxy with ⟨hx, hy⟩ | ⟨hx, hy⟩
  · exact exists_of_getElem? hA'.callSignatures hB'.callSignatures hx hy
  · exact exists_of_getElem? hA'.constructSignatures hB'.constructSignatures hx hy

variable (hd : d.Checkable)
include hd

theorem error_of_copies {j : Judgment} (hj : j ∈ mutualCopies d c A B) {s s' : Context} {e : Failure}
    (h : Compatibility.resolve c j s = .error e s') : e = .recursionLimit .relatingTypes := by
  let S : Set Handle := handles c A ∪ handles c B
  have hS : ∀ g ∈ S, ∀ g' ∈ c.refs g, g' ∈ S := by
    rintro g (hg | hg) g' hg'
    · exact .inl (hA.refs_subset hg g' hg')
    · exact .inr (hB.refs_subset hg g' hg')
  have hblames : ∀ t, .type t ∈ S → ¬ c.Blames t e := by
    rintro t (ht | ht)
    · exact hA.not_blames hd ht e
    · exact hB.not_blames hd ht e
  have hamong : j ∈ Judgment.among S := by
    cases j with
    | type s t =>
      rcases hj with ⟨i, k, -, hs, ht⟩ | ⟨i, k, -, hs, ht⟩
      · exact ⟨.inl ⟨k, hs⟩, .inr ⟨i, ht⟩⟩
      · exact ⟨.inr ⟨k, hs⟩, .inl ⟨i, ht⟩⟩
    | signature x y =>
      rcases hj with ⟨e, hx, hy⟩ | ⟨e, hx, hy⟩
      · exact ⟨.inl ⟨e, hx⟩, .inr ⟨e, hy⟩⟩
      · exact ⟨.inr ⟨e, hx⟩, .inl ⟨e, hy⟩⟩
    | functionTag tag target => exact hj.elim id id
  obtain he | ⟨k, hk, he⟩ := Compatibility.resolveWithin_error (Compatibility.askClosed_among hS) hamong h
  · exact he
  · cases k with
    | type s t => exact (he.elim (hblames s hk.1) (hblames t hk.2)).elim
    | signature x y => exact he.elim
    | functionTag tag target => exact hk.elim

end

section
variable {d : Document} {cA cB : Catalog} {A B : TypeTable} {options : Options} {w₀ w : World}

/-- An engine that has spared the copies until now does so now. -/
theorem accepts_of_copies (hd : d.Checkable) (hA : Faithful d cA A w.catalog) (hB : Faithful d cB B w.catalog)
    (hw₀ : w₀.Attained options) (hw : w₀.Reachable w) (hcatalog : w.catalog = w₀.catalog) {j : Judgment}
    (hj : j ∈ mutualCopies d w.catalog A B) : Accepts (Action.check (fun c _ => Compatibility.resolve c j) w) := by
  unfold Accepts
  rw [outcome_check, stateAfter_check]
  intro hroom
  have hT := mutualCopies_step options.strictNullableSources hd hA hB
  have hbefore := (Compatibility.resolve_follows w.catalog j w.context).identities.hasRoom hroom
  have hspares : Compatibility.Spares (mutualCopies d w.catalog A B) options.strictNullableSources w.context := by
    refine hw.spares hT hcatalog.symm rfl (fun hroom₀ => ?_) hbefore
    exact hw₀.spares hT (hcatalog ▸ .refl _) hroom₀
  cases hrun : Compatibility.resolve w.catalog j w.context with
  | ok b s' =>
    rw [hrun] at hroom
    cases b with
    | true => exact .inl rfl
    | false => exact absurd hj ((Compatibility.resolve_spared_complete hT j).no hspares hrun hroom)
  | error e s' => exact .inr (by rw [error_of_copies hA hB hd hj hrun]; rfl)

/-- Two tables decoded from one document, with any history before, between and after: each descriptor is
compatible with its copy in both directions, and so is each signature. -/
theorem copies_compatible {cA' cB' : Catalog} (hA : d.decode cA = .ok (A, cA')) (hB : d.decode cB = .ok (B, cB'))
    (hgA : cA'.Grows w.catalog) (hgB : cB'.Grows w.catalog) (hparameters : ∀ name, .typeParameter name ∉ d.types)
    (hintersections : ∀ rs name, .intersection rs name ∉ d.types)
    (hnumbers : ∀ x, .numericLiteral x ∈ d.types → x.isNaN = false)
    (hw₀ : w₀.Attained options) (hw : w₀.Reachable w) (hcatalog : w.catalog = w₀.catalog) :
    ∀ i < d.types.size, ∃ s t, A.get? i = some s ∧ B.get? i = some t ∧
      Accepts (Action.isCompatible s t w) ∧ Accepts (Action.isCompatible t s w) ∧
      ∀ source target, w.catalog.shape s = .ok source → w.catalog.shape t = .ok target → ∀ (k : Nat) x y,
        source.callSignatures[k]? = some x ∧ target.callSignatures[k]? = some y ∨
          source.constructSignatures[k]? = some x ∧ target.constructSignatures[k]? = some y →
        Accepts (Action.areSignaturesCompatible x y w) ∧ Accepts (Action.areSignaturesCompatible y x w) := by
  have hd : d.Checkable := ⟨hparameters, hintersections, hnumbers⟩
  have hA := (faithful_of_decode hA).later hgA
  have hB := (faithful_of_decode hB).later hgB
  intro i hi
  obtain ⟨s, hs⟩ := hA.exists_get? hi
  obtain ⟨t, ht⟩ := hB.exists_get? hi
  have hresolve {j : Judgment} (hj : j ∈ mutualCopies d w.catalog A B) :=
    accepts_of_copies hd hA hB hw₀ hw hcatalog hj
  refine ⟨s, t, hs, ht, hresolve (.inl ⟨i, i, .refl, hs, ht⟩), hresolve (.inr ⟨i, i, .refl, ht, hs⟩), ?_⟩
  intro source target hsource htarget k x y hxy
  obtain ⟨e, hx, hy⟩ := signature_of_shapes hA hB hs ht hsource htarget hxy
  exact ⟨hresolve (.inl ⟨e, hx, hy⟩), hresolve (.inr ⟨e, hy, hx⟩)⟩

end

/-- The table of a document and the catalog it is added to, if the document decodes. -/
def Document.decoded (d : Document) (c : Catalog) : TypeTable × Catalog :=
  match d.decode c with
  | .ok r => r
  | .error _ => (⟨#[], default⟩, c)

/-- An engine has been asked about lists of numbers, in vain, before they are decoded a second time. -/
def numberListsInUse : World :=
  let c := (numberLists.decoded {}).2
  let w := World.fresh { strictNullableSources := true } .silent c {}
  let asked := { w with context := stateAfter (Compatibility.resolve c (.type ⟨2⟩ ⟨3⟩) w.context) }
  { asked with catalog := (numberLists.decoded c).2 }

theorem copies_compatible_numberLists :
    outcome (Action.isCompatible ⟨2⟩ ⟨6⟩ numberListsInUse) = .ok true ∧
      Accepts (Action.isCompatible ⟨2⟩ ⟨6⟩ numberListsInUse) := by
  have hA : numberLists.decode {} = .ok ((numberLists.decoded {}).1, (numberLists.decoded {}).2) := rfl
  have hB : numberLists.decode (numberLists.decoded {}).2 =
      .ok ((numberLists.decoded (numberLists.decoded {}).2).1,
        (numberLists.decoded (numberLists.decoded {}).2).2) := rfl
  have hgB := (faithful_of_decode hB).grows
  have hclosed : (numberLists.decoded {}).2.Closed := by
    rintro (⟨⟨i⟩⟩ | ⟨⟨i⟩⟩) hi
    · have hi : i < 4 := hi
      interval_cases i <;> decide +kernel
    · have hi : i < 1 := hi
      interval_cases i
      decide +kernel
  have hattained : numberListsInUse.Attained { strictNullableSources := true } := by
    refine ⟨.silent, (numberLists.decoded {}).2, {}, ReflTransGen.tail ?_ (.build hgB)⟩
    exact .single (.judge _ (.type ⟨2⟩ ⟨3⟩) hclosed (by decide +kernel) (by decide +kernel))
  have hall := copies_compatible hA hB hgB (.refl _) (by simp [numberLists]) (by simp [numberLists])
    (by simp [numberLists]) hattained .start rfl
  obtain ⟨s, t, hs, ht, haccepts, -⟩ := hall 0 (by decide)
  cases hs
  cases ht
  exact ⟨by decide +kernel, haccepts⟩

def notANumber : Document := ⟨#[.numericLiteral .nan], 0⟩

/-- A literal that is not equal to itself does not match its copy. No text reads as such a document. -/
theorem copies_incompatible_notANumber :
    let c := (notANumber.decoded {}).2
    let w := World.fresh {} .silent (notANumber.decoded c).2 {}
    notANumber.decode {} = .ok (⟨#[⟨0⟩], ⟨0⟩⟩, c) ∧ notANumber.decode c = .ok (⟨#[⟨1⟩], ⟨1⟩⟩, w.catalog) ∧
      (∀ name, .typeParameter name ∉ notANumber.types) ∧ (∀ rs name, .intersection rs name ∉ notANumber.types) ∧
      outcome (Action.isCompatible ⟨0⟩ ⟨1⟩ w) = .ok false ∧ outcome (Action.isCompatible ⟨1⟩ ⟨0⟩ w) = .ok false ∧
      ∀ text, Document.parse text ≠ .ok notANumber := by
  intro c w
  refine ⟨rfl, rfl, by simp [notANumber], by simp [notANumber], by decide +kernel, by decide +kernel, ?_⟩
  intro text hparse
  exact absurd (parse_not_nan hparse (x := .nan) (by simp [notANumber])) (by decide)

end TypeContracts
