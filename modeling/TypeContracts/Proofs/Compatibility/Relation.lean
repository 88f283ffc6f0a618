import TypeContracts.Compatibility
import TypeContracts.Proofs.Coinduction
import TypeContracts.Proofs.Descriptor.Graph

/-!
# The compatibility relation

The rules of compatibility as conditions on a set of judgments that are taken
to hold, without an engine. `related` is the largest set of judgments each of
which follows by one rule from others in the set. A judgment whose rule makes
no sense (an undefined object type, a type parameter) does not hold.
-/

namespace TypeContracts.Compatibility

section
variable (R : Set Judgment)

def Bivariant (a b : TypeRef) : Prop := .type a b ∈ R ∨ .type b a ∈ R

def SignatureStep (x y : Signature) : Prop :=
  x.mandatory ≤ y.mandatory ∧
    (∀ p ∈ x.parameters.zip y.parameters, Bivariant R p.1 p.2) ∧
      (∀ rest ∈ x.rest, ∀ b ∈ y.parameters.drop x.parameters.length, Bivariant R b rest) ∧
        .type y.result x.result ∈ R

def SignaturesStep (wanted offered : List SignatureRef) : Prop :=
  ∀ y ∈ wanted, ∃ x ∈ offered, .signature x y ∈ R

def CallableStep (own wanted : Shape) : Prop :=
  SignaturesStep R wanted.callSignatures own.callSignatures ∧
    SignaturesStep R wanted.constructSignatures own.constructSignatures

def PropertyStep (source : Shape) (name : String) (wanted : Property) : Prop :=
  match source.properties.find? name with
  | none => wanted.optional = true
  | some own => (own.optional = true → wanted.optional = true) ∧ .type own.type wanted.type ∈ R

def IndexStep (source target : Option TypeRef) : Prop := ∀ t ∈ target, ∃ s ∈ source, .type s t ∈ R

def ShapeStep (source target : Shape) : Prop :=
  (∀ p ∈ target.properties.toList, PropertyStep R source p.1 p.2) ∧
    SignaturesStep R target.callSignatures source.callSignatures ∧
      SignaturesStep R target.constructSignatures source.constructSignatures ∧
        IndexStep R source.numericIndex target.numericIndex ∧ IndexStep R source.stringIndex target.stringIndex

variable (c : Catalog) (strict : Bool)

/-- A source that is neither universal nor a type parameter nor a union against a target. -/
def TargetStep (s t : TypeRef) : Prop :=
  match c.get t with
  | .any => True
  | .boolean => c.tag s = .boolean ∨ c.tag s = .booleanLiteral
  | .numeric => c.tag s = .numeric ∨ c.tag s = .numericLiteral
  | .string => c.tag s = .string ∨ c.tag s = .stringLiteral
  | .booleanLiteral expected => c.get s = .booleanLiteral expected
  | .numericLiteral expected => ∃ actual, c.get s = .numericLiteral actual ∧ actual.equals expected = true
  | .stringLiteral expected => c.get s = .stringLiteral expected
  | .void => c.tag s = .void
  | .null => c.tag s = .null
  | .never => c.tag s = .never
  | .intersection members _ => ∀ member ∈ members, .type s member ∈ R
  | .union members _ => ∃ member ∈ members, .type s member ∈ R
  | .typeParameter _ => False
  | .object .. => ∃ target, c.shape t = .ok target ∧ ∃ source, c.shape s = .ok source ∧ ShapeStep R source target

def TypeStep (s t : TypeRef) : Prop :=
  isUniversal strict (c.get s) = true ∨
    match c.get s with
    | .typeParameter _ => False
    | .union members _ => ∀ member ∈ members, .type member t ∈ R
    | _ => TargetStep R c s t

def RuleStep : Judgment → Prop
  | .type s t => TypeStep R c strict s t
  | .signature x y => SignatureStep R (c.signature x) (c.signature y)
  | .functionTag tag target =>
    ∃ own, c.shape tag = .ok own ∧ ∃ wanted, c.shape target = .ok wanted ∧ CallableStep R own wanted

/-- Types and signatures are related to themselves, and else by the rules. -/
def Step (j : Judgment) : Prop := isReflexive j = true ∨ RuleStep R c strict j

end

/-! ## Monotonicity -/

section
variable {R R' : Set Judgment} (h : R ⊆ R')
include h

theorem Bivariant.mono {a b : TypeRef} (hb : Bivariant R a b) : Bivariant R' a b := hb.imp (@h _) (@h _)

theorem SignatureStep.mono {x y : Signature} (hs : SignatureStep R x y) : SignatureStep R' x y := by
  obtain ⟨hm, hp, hr, ht⟩ := hs
  exact ⟨hm, fun p hp' => (hp p hp').mono h, fun rest hrest b hb => (hr rest hrest b hb).mono h, h ht⟩

theorem SignaturesStep.mono {wanted offered : List SignatureRef} (hs : SignaturesStep R wanted offered) :
    SignaturesStep R' wanted offered := by
  intro y hy
  obtain ⟨x, hx, hxy⟩ := hs y hy
  exact ⟨x, hx, h hxy⟩

theorem PropertyStep.mono {source : Shape} {name : String} {wanted : Property}
    (hs : PropertyStep R source name wanted) : PropertyStep R' source name wanted := by
  unfold PropertyStep at *
  cases hf : source.properties.find? name with
  | none => simpa only [hf] using hs
  | some own => simp only [hf] at hs ⊢; exact ⟨hs.1, h hs.2⟩

theorem IndexStep.mono {source target : Option TypeRef} (hs : IndexStep R source target) :
    IndexStep R' source target := by
  intro t ht
  obtain ⟨s, hs, hst⟩ := hs t ht
  exact ⟨s, hs, h hst⟩

theorem ShapeStep.mono {source target : Shape} (hs : ShapeStep R source target) : ShapeStep R' source target := by
  obtain ⟨hp, hc, hn, hni, hsi⟩ := hs
  exact ⟨fun p hp' => (hp p hp').mono h, hc.mono h, hn.mono h, hni.mono h, hsi.mono h⟩

theorem TargetStep.mono {c : Catalog} {s t : TypeRef} (hs : TargetStep R c s t) : TargetStep R' c s t := by
  unfold TargetStep at *
  split <;> simp_all only
  · exact fun member hm => h (hs member hm)
  · obtain ⟨member, hm, hr⟩ := hs
    exact ⟨member, hm, h hr⟩
  · obtain ⟨target, ht, source, hs, hr⟩ := hs
    exact ⟨target, ht, source, hs, hr.mono h⟩

theorem Step.mono {c : Catalog} {strict : Bool} {j : Judgment} (hs : Step R c strict j) : Step R' c strict j := by
  refine hs.imp_right fun hs => ?_
  cases j with
  | type s t =>
    refine Or.imp_right (fun hs => ?_) hs
    split <;> simp_all only
    · exact fun member hm => h (hs member hm)
    · exact hs.mono h
  | signature x y => exact SignatureStep.mono h hs
  | functionTag tag target =>
    obtain ⟨own, ho, wanted, hw, hc, hn⟩ := hs
    exact ⟨own, ho, wanted, hw, hc.mono h, hn.mono h⟩

end

/-! ## The largest relation -/

def rules (c : Catalog) (strict : Bool) : Set Judgment →o Set Judgment where
  toFun R := { j | Step R c strict j }
  monotone' _ _ h _ hs := hs.mono h

def related (c : Catalog) (strict : Bool) : Set Judgment := (rules c strict).gfp

theorem mem_related_iff {c : Catalog} {strict : Bool} {j : Judgment} :
    j ∈ related c strict ↔ Step (related c strict) c strict j := by
  unfold related
  conv_lhs => rw [← OrderHom.map_gfp]
  rfl

end TypeContracts.Compatibility
