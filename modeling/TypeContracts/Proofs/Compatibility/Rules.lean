import TypeContracts.Proofs.Compatibility.Relation
import TypeContracts.Proofs.Inquiry

/-!
# The rules of compatibility are inquiries

Each rule, run with any way to answer judgments, decides its condition of
`Step`. It asks only for judgments on what its own handles are or refer to,
and fails only for a type parameter, an intersection source or an undefined
object type among them (`rule_inquires`).
-/

namespace TypeContracts

/-- The judgments on types and signatures between the given handles. -/
def Judgment.among (S : Set Handle) : Set Judgment
  | type source target => .type source ∈ S ∧ .type target ∈ S
  | signature source target => .signature source ∈ S ∧ .signature target ∈ S
  | functionTag .. => False

def Catalog.Blames (c : Catalog) (t : TypeRef) : Failure → Prop
  | .unsupportedTypeParameter => c.tag t = .typeParameter
  | .unsupportedIntersectionSource => c.tag t = .intersection
  | .malformed (.undefinedObject name) => c.get t = .object name none
  | _ => False

namespace Compatibility

variable {Q : Set Judgment} {E : Set Failure} {S : Set Handle}

abbrev Asking (m : (Judgment → Check Bool) → Check Bool) (φ : Set Judgment → Prop) (S : Set Handle)
    (E : Set Failure) : Prop := Inquires id m φ (Judgment.among S) E

theorem bivariant_inquires {a b : TypeRef} (ha : .type a ∈ S) (hb : .type b ∈ S) :
    Asking (fun ask => bivariant ask a b) (Bivariant · a b) S E := by
  have hab : Judgment.type a b ∈ Judgment.among S := ⟨ha, hb⟩
  have hba : Judgment.type b a ∈ Judgment.among S := ⟨hb, ha⟩
  exact (Inquires.question hab).or (Inquires.question hba)

theorem signatureRule_inquires {x y : Signature} (hx : ∀ h ∈ x.refs, h ∈ S) (hy : ∀ h ∈ y.refs, h ∈ S) :
    Asking (fun ask => signatureRule ask x y) (SignatureStep · x y) S E := by
  have hxp : ∀ a ∈ x.parameters, .type a ∈ S := fun a ha => hx _ (Signature.parameter_mem_refs ha)
  have hyp : ∀ b ∈ y.parameters, .type b ∈ S := fun b hb => hy _ (Signature.parameter_mem_refs hb)
  have hres : Judgment.type y.result x.result ∈ Judgment.among S :=
    ⟨hy _ (Signature.result_mem_refs y), hx _ (Signature.result_mem_refs x)⟩
  unfold signatureRule
  by_cases hm : y.mandatory < x.mandatory
  · simp only [hm, if_true]
    exact Inquires.pure false (by simp [SignatureStep, hm])
  · simp only [hm, if_false, allOf, List.allM_cons, List.allM_nil, id]
    have hparams : Asking (fun ask => (x.parameters.zip y.parameters).allM fun p => bivariant ask p.1 p.2)
        (fun R => ∀ p ∈ x.parameters.zip y.parameters, Bivariant R p.1 p.2) S E := by
      refine Inquires.allM fun p hp => ?_
      have hp' := List.of_mem_zip hp
      exact bivariant_inquires (hxp _ hp'.1) (hyp _ hp'.2)
    have hresult : Asking (fun ask => do if ← ask (.type y.result x.result) then return true else return false)
        (fun R => .type y.result x.result ∈ R ∧ True) S E := (Inquires.question hres).and Inquires.always
    cases hr : x.rest with
    | none =>
      refine (hparams.and (Inquires.always.and hresult)).congr fun R => ?_
      simp [SignatureStep, hr, Nat.not_lt.mp hm]
    | some rest =>
      have hrest : Asking (fun ask => (y.parameters.drop x.parameters.length).allM fun b => bivariant ask b rest)
          (fun R => ∀ b ∈ y.parameters.drop x.parameters.length, Bivariant R b rest) S E :=
        Inquires.allM fun b hb =>
          bivariant_inquires (hyp b (List.mem_of_mem_drop hb)) (hx _ (Signature.rest_mem_refs hr))
      refine (hparams.and (hrest.and hresult)).congr fun R => ?_
      simp [SignatureStep, hr, Nat.not_lt.mp hm]

theorem signaturesMatched_inquires {wanted offered : List SignatureRef} (hw : ∀ y ∈ wanted, .signature y ∈ S)
    (ho : ∀ x ∈ offered, .signature x ∈ S) :
    Asking (fun ask => signaturesMatched ask wanted offered) (SignaturesStep · wanted offered) S E := by
  refine Inquires.allM fun y hy => Inquires.anyM fun x hx => ?_
  have hxy : Judgment.signature x y ∈ Judgment.among S := ⟨ho x hx, hw y hy⟩
  exact Inquires.question hxy

theorem indexRule_inquires {a b : Option TypeRef} (ha : ∀ t ∈ a, .type t ∈ S) (hb : ∀ t ∈ b, .type t ∈ S) :
    Asking (fun ask => indexRule ask a b) (IndexStep · a b) S E := by
  unfold IndexStep
  cases b with
  | none => exact Inquires.pure true (by simp)
  | some b =>
    cases a with
    | none => exact Inquires.pure false (by simp)
    | some a =>
      have hab : Judgment.type a b ∈ Judgment.among S := ⟨ha a rfl, hb b rfl⟩
      exact (Inquires.question hab).congr (by simp)

section
variable {source target : Shape} (hs : ∀ h ∈ source.refs, h ∈ S) (ht : ∀ h ∈ target.refs, h ∈ S)
include hs ht

theorem callSignatures_inquires :
    Asking (fun ask => signaturesMatched ask target.callSignatures source.callSignatures)
      (SignaturesStep · target.callSignatures source.callSignatures) S E :=
  signaturesMatched_inquires (fun _ h => ht _ (Shape.call_mem_refs h)) fun _ h => hs _ (Shape.call_mem_refs h)

theorem constructSignatures_inquires :
    Asking (fun ask => signaturesMatched ask target.constructSignatures source.constructSignatures)
      (SignaturesStep · target.constructSignatures source.constructSignatures) S E :=
  signaturesMatched_inquires (fun _ h => ht _ (Shape.construct_mem_refs h)) fun _ h =>
    hs _ (Shape.construct_mem_refs h)

theorem callableRule_inquires :
    Asking (fun ask => callableRule ask source target) (CallableStep · source target) S E := by
  unfold callableRule
  simp only [allOf, List.allM_cons, List.allM_nil, id]
  refine ((callSignatures_inquires hs ht).and ((constructSignatures_inquires hs ht).and
    Inquires.always)).congr fun R => ?_
  simp [CallableStep]

theorem propertyRule_inquires {name : String} {wanted : Property} (hw : (name, wanted) ∈ target.properties.toList) :
    Asking (fun ask => propertyRule ask source name wanted) (PropertyStep · source name wanted) S E := by
  unfold propertyRule PropertyStep
  cases hf : source.properties.find? name with
  | none => exact Inquires.pure wanted.optional (by simp)
  | some own =>
    by_cases ho : (own.optional && !wanted.optional) = true
    · simp only [ho, if_true]
      exact Inquires.pure false (by simp_all)
    · have hown : Judgment.type own.type wanted.type ∈ Judgment.among S :=
        ⟨hs _ (Shape.property_mem_refs (Members.find?_eq_some_iff.mp hf)), ht _ (Shape.property_mem_refs hw)⟩
      simp only [ho, Bool.false_eq_true, if_false]
      refine (Inquires.question hown).congr fun R => ?_
      simp_all

theorem shapeRule_inquires :
    Asking (fun ask => shapeRule ask source target) (ShapeStep · source target) S E := by
  unfold shapeRule
  simp only [allOf, List.allM_cons, List.allM_nil, id]
  have hprops : Asking
      (fun ask => target.properties.toList.allM fun p => propertyRule ask source p.1 p.2)
      (fun R => ∀ p ∈ target.properties.toList, PropertyStep R source p.1 p.2) S E :=
    Inquires.allM fun p hp => propertyRule_inquires hs ht hp
  have hnumeric : Asking (fun ask => indexRule ask source.numericIndex target.numericIndex)
      (IndexStep · source.numericIndex target.numericIndex) S E :=
    indexRule_inquires (fun _ h => hs _ (Shape.numericIndex_mem_refs h)) fun _ h =>
      ht _ (Shape.numericIndex_mem_refs h)
  have hstring : Asking (fun ask => indexRule ask source.stringIndex target.stringIndex)
      (IndexStep · source.stringIndex target.stringIndex) S E :=
    indexRule_inquires (fun _ h => hs _ (Shape.stringIndex_mem_refs h)) fun _ h =>
      ht _ (Shape.stringIndex_mem_refs h)
  refine (hprops.and ((callSignatures_inquires hs ht).and ((constructSignatures_inquires hs ht).and
    (hnumeric.and (hstring.and Inquires.always))))).congr fun R => ?_
  simp [ShapeStep]

end

/-! ## Types -/

section
variable {c : Catalog} {s t : TypeRef} (hE : ∀ e, c.Blames s e ∨ c.Blames t e → e ∈ E)
  (hparts : Judgment.among { h | h ∈ c.refs (.type s) ∨ h ∈ c.refs (.type t) } ⊆ Q)
include hE hparts

theorem objectRule_inquires {name : Option String} {shape : Option Shape} (hg : c.get t = .object name shape) :
    Inquires id (fun ask => do
        let target ← Check.ofExcept (c.shape t)
        match c.get s with
        | .intersection .. => throw .unsupportedIntersectionSource
        | .object .. => shapeRule ask (← Check.ofExcept (c.shape s)) target
        | _ => return false)
      (fun R => ∃ target, c.shape t = .ok target ∧ ∃ source, c.shape s = .ok source ∧ ShapeStep R source target)
      Q E := by
  cases htarget : c.shape t with
  | error e =>
    obtain ⟨rfl, rfl⟩ := Catalog.shape_error_of_object hg htarget
    exact Inquires.throw (hE _ (.inr hg))
  | ok target =>
    simp only [Check.ofExcept, pure_bind, Except.ok.injEq, exists_eq_left']
    cases hsource : c.get s with
    | intersection members name' =>
      exact Inquires.throw (hE _ (.inl (by simp [Catalog.Blames, Catalog.tag, hsource, Descriptor.tag])))
    | object name' shape' =>
      cases hshape : c.shape s with
      | error e =>
        obtain ⟨rfl, rfl⟩ := Catalog.shape_error_of_object hsource hshape
        exact Inquires.throw (hE _ (.inl hsource))
      | ok source =>
        simp only [pure_bind, Except.ok.injEq, exists_eq_left']
        rw [Catalog.refs_of_shape htarget, Catalog.refs_of_shape hshape] at hparts
        exact (shapeRule_inquires (fun _ => .inl) fun _ => .inr).mono hparts
    | _ => exact Inquires.pure false (by simp [Catalog.shape, hsource])

variable (htarget : ∀ m, .type m ∈ c.refs (.type t) → .type s m ∈ Q)
  (hsource : ∀ m, .type m ∈ c.refs (.type s) → .type m t ∈ Q)
include htarget

theorem targetRule_inquires : Inquires id (fun ask => targetRule c ask s t) (TargetStep · c s t) Q E := by
  unfold targetRule TargetStep
  cases hg : c.get t with
  | any => exact Inquires.pure true (by simp)
  | boolean | numeric | string | void | null | never => exact Inquires.pure _ (by simp)
  | booleanLiteral expected => cases hs : c.get s <;> exact Inquires.pure _ (by simp)
  | numericLiteral expected => cases hs : c.get s <;> exact Inquires.pure _ (by simp)
  | stringLiteral expected => cases hs : c.get s <;> exact Inquires.pure _ (by simp)
  | intersection members name =>
    exact Inquires.allM fun member hm => Inquires.question (htarget member (Catalog.intersection_mem_refs hm hg))
  | union members name =>
    exact Inquires.anyM fun member hm => Inquires.question (htarget member (Catalog.union_mem_refs hm hg))
  | typeParameter name =>
    exact Inquires.throw (hE _ (.inr (by simp [Catalog.Blames, Catalog.tag, hg, Descriptor.tag])))
  | object name shape => exact objectRule_inquires hE hparts hg

include hsource

theorem typeRule_inquires (strict : Bool) :
    Inquires id (fun ask => typeRule c ask strict s t) (TypeStep · c strict s t) Q E := by
  unfold typeRule TypeStep
  by_cases hu : isUniversal strict (c.get s) = true
  · simp only [hu, if_true]
    exact Inquires.pure true (by simp)
  · simp only [hu, Bool.false_eq_true, if_false, false_or]
    have hrule := targetRule_inquires hE hparts htarget
    cases hg : c.get s with
    | typeParameter name =>
      exact Inquires.throw (hE _ (.inl (by simp [Catalog.Blames, Catalog.tag, hg, Descriptor.tag])))
    | union members name =>
      exact Inquires.allM fun member hm => Inquires.question (hsource member (Catalog.union_mem_refs hm hg))
    | _ => exact hrule

end

/-! ## Judgments -/

def near (c : Catalog) (j : Judgment) : Set Handle :=
  { h | h = j.source ∨ h = j.target ∨ h ∈ c.refs j.source ∨ h ∈ c.refs j.target }

/-- What the rule of a judgment may ask for is about what its source and its target refer to, or has one of the two
as it is. -/
def premises (c : Catalog) (j : Judgment) : Set Judgment :=
  let parts := { h | h ∈ c.refs j.source ∨ h ∈ c.refs j.target }
  { k ∈ Judgment.among (near c j) | k.source ∈ parts ∧ k.target ∈ parts ∨
    k.source ∈ c.refs j.source ∧ k.target = j.target ∨ k.source = j.source ∧ k.target ∈ c.refs j.target }

def failures (c : Catalog) : Judgment → Set Failure
  | .type s t => { e | c.Blames s e ∨ c.Blames t e }
  | .signature .. => ∅
  | .functionTag tag target => { e | c.shape tag = .error e ∨ c.shape target = .error e }

theorem among_parts_subset (c : Catalog) (j : Judgment) :
    Judgment.among { h | h ∈ c.refs j.source ∨ h ∈ c.refs j.target } ⊆ premises c j := by
  intro k hk
  have hnear : ∀ h, h ∈ c.refs j.source ∨ h ∈ c.refs j.target → h ∈ near c j := fun h hh => .inr (.inr hh)
  cases k with
  | type a b => exact ⟨⟨hnear _ hk.1, hnear _ hk.2⟩, .inl hk⟩
  | signature x y => exact ⟨⟨hnear _ hk.1, hnear _ hk.2⟩, .inl hk⟩
  | functionTag tag target => exact hk.elim

theorem rule_inquires_premises (c : Catalog) (strict : Bool) (j : Judgment) :
    Inquires id (fun ask => rule c ask strict j) (RuleStep · c strict j) (premises c j) (failures c j) := by
  have hparts := among_parts_subset c j
  cases j with
  | type s t =>
    refine typeRule_inquires (fun _ h => h) hparts (fun m hm => ?_) (fun m hm => ?_) strict
    · exact ⟨⟨.inl rfl, .inr (.inr (.inr hm))⟩, .inr (.inr ⟨rfl, hm⟩)⟩
    · exact ⟨⟨.inr (.inr (.inl hm)), .inr (.inl rfl)⟩, .inr (.inl ⟨hm, rfl⟩)⟩
  | signature x y => exact (signatureRule_inquires (fun _ => .inl) fun _ => .inr).mono hparts
  | functionTag tag target =>
    simp only [rule, RuleStep]
    cases hown : c.shape tag with
    | error e => exact Inquires.throw (.inl hown)
    | ok own =>
      cases hwanted : c.shape target with
      | error e => exact Inquires.throw (.inr hwanted)
      | ok wanted =>
        simp only [Check.ofExcept, pure_bind, Except.ok.injEq, exists_eq_left']
        refine (callableRule_inquires (fun h hh => .inl ?_) (fun h hh => .inr ?_)).mono hparts
        · rwa [Judgment.source, Catalog.refs_of_shape hown]
        · rwa [Judgment.target, Catalog.refs_of_shape hwanted]

theorem rule_inquires (c : Catalog) (strict : Bool) (j : Judgment) :
    Asking (fun ask => rule c ask strict j) (RuleStep · c strict j) (near c j) (failures c j) :=
  (rule_inquires_premises c strict j).mono fun _ hk => hk.1

section
variable {P : Check Bool → Prop} (hP : Compositional E P) {c : Catalog} {ask : Judgment → Check Bool} {j : Judgment}
  (strict : Bool)
include hP

/-- What holds of the judgments that a rule asks for, and of its failures, holds of the rule. -/
theorem rule_of_premises (hask : ∀ k ∈ premises c j, P (ask k)) (hfail : failures c j ⊆ E) :
    P (rule c ask strict j) := by
  obtain ⟨t, ht, -, hasks, hfails⟩ := rule_inquires_premises c strict j
  rw [show rule c ask strict j = t.run ask from ht ask]
  exact hP.run (fun k hk => hask k (hasks k hk)) fun e he => hfail (hfails e he)

theorem rule_of_asked (hask : ∀ k ∈ Judgment.among (near c j), P (ask k)) (hfail : failures c j ⊆ E) :
    P (rule c ask strict j) :=
  rule_of_premises hP strict (fun k hk => hask k hk.1) hfail

end

end Compatibility

end TypeContracts
