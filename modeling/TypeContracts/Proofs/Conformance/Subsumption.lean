import TypeContracts.Proofs.Call.Exactness
import TypeContracts.Proofs.Value.Graph

/-!
# Subsumption

A value that has a type has every type that the type is compatible with. This
needs three provisos, each of them about what can be reached: typed arrays meet
a numeric index type by a rule of their own, `any` is compatible with
everything, and tags and optional properties are checked on values in ways that
compatibility does not foresee.
-/

namespace TypeContracts

open Relation (ReflTransGen)

theorem Double.equals_trans {x y z : Double} (hxy : x.equals y = true) (hyz : y.equals z = true) :
    x.equals z = true := by
  simp only [equals, Bool.and_eq_true, Bool.or_eq_true, beq_iff_eq] at *
  obtain ⟨⟨hx, hy⟩, hxy⟩ := hxy
  obtain ⟨⟨-, hz⟩, hyz⟩ := hyz
  have hzero : ∀ {a b : Double}, a.bits = b.bits → a.isZero = b.isZero := fun {a b} h => by
    simp only [isZero, magnitude, h]
  refine ⟨⟨hx, hz⟩, ?_⟩
  obtain hxy | ⟨hx0, hy0⟩ := hxy
  · obtain hyz | ⟨hy0, hz0⟩ := hyz
    · exact .inl (hxy.trans hyz)
    · exact .inr ⟨hzero hxy ▸ hy0, hz0⟩
  · obtain hyz | ⟨-, hz0⟩ := hyz
    · exact .inr ⟨hx0, hzero hyz ▸ hy0⟩
    · exact .inr ⟨hx0, hz0⟩

/-! ## What can be reached -/

def Heap.BufferFree (h : Heap) (v : Value) : Prop := ∀ r, ¬ ReflTransGen h.Refers v (.buffer r)

def Catalog.AnyFree (c : Catalog) (t : TypeRef) : Prop := ∀ u, c.Reaches (.type t) (.type u) → c.get u ≠ .any

/-- Neither a signature nor an optional property can be reached from the type. -/
structure Catalog.Definite (c : Catalog) (t : TypeRef) : Prop where
  signatures : ∀ x, ¬ c.Reaches (.type t) (.signature x)
  required : ∀ {u shape}, c.Reaches (.type t) (.type u) → c.shape u = .ok shape →
    ∀ p ∈ shape.properties.toList, p.2.optional = false

section
variable {c : Catalog} {h : Heap} {v u : Value} {t t' : TypeRef}

theorem Heap.BufferFree.of_refers (hv : h.BufferFree v) (hu : h.Refers v u) : h.BufferFree u :=
  fun r hr => hv r (hr.head hu)

theorem Catalog.AnyFree.of_refs (ht : c.AnyFree t) (hr : .type t' ∈ c.refs (.type t)) : c.AnyFree t' :=
  fun u hu => ht u (.head hr hu)

theorem Catalog.Definite.of_refs (ht : c.Definite t) (hr : .type t' ∈ c.refs (.type t)) : c.Definite t' where
  signatures x hx := ht.signatures x (.head hr hx)
  required hu := ht.required (.head hr hu)

theorem Catalog.Definite.no_signatures {shape : Shape} (ht : c.Definite t) (hs : c.shape t = .ok shape) :
    shape.callSignatures = [] ∧ shape.constructSignatures = [] := by
  have hrefs : ∀ x, .signature x ∉ shape.refs := fun x hx =>
    ht.signatures x (.single (by rwa [Catalog.refs_of_shape hs]))
  constructor
  · exact List.eq_nil_iff_forall_not_mem.mpr fun x hx => hrefs x (Shape.call_mem_refs hx)
  · exact List.eq_nil_iff_forall_not_mem.mpr fun x hx => hrefs x (Shape.construct_mem_refs hx)

end

namespace Conformance

open Compatibility (related TargetStep)

variable {c : Catalog} {h : Heap} {strict : Bool} {v : Value} {s t : TypeRef}

/-! ## What a settled value looks like -/

theorem object_of_mem_gfp (ho : (v, s) ∈ (objectRules c h strict).gfp) :
    ∃ name shape, c.get s = .object name (some shape) := by
  obtain ⟨shape, hs, -⟩ := mem_objectRules_gfp_iff.mp ho
  obtain ⟨name, hg⟩ := Catalog.shape_eq_ok.mp hs
  exact ⟨name, shape, hg⟩

theorem plain_of_settled (hs : (v, s) ∈ settled c h strict) (hn : v.isNullish = false)
    (hs' : ¬ c.tag s = .union ∧ ¬ c.tag s = .intersection ∧ ¬ c.tag s = .object) : Plain v (c.get s) := by
  obtain ⟨hu, hi, ho⟩ := hs'
  cases hs with
  | nullish hn' => rw [hn] at hn'; cases hn'
  | plain hp => exact hp
  | intersection hg _ => exact absurd (by simp only [Catalog.tag, hg, Descriptor.tag]) hi
  | union hg _ _ => exact absurd (by simp only [Catalog.tag, hg, Descriptor.tag]) hu
  | object hm =>
    obtain ⟨name, shape, hg⟩ := object_of_mem_gfp hm
    exact absurd (by simp only [Catalog.tag, hg, Descriptor.tag]) ho

theorem reference_of_settled {shape : Shape} (hs : (v, s) ∈ settled c h strict) (hn : v.isNullish = false)
    (hshape : c.shape s = .ok shape) : ReferenceStep (settled c h strict) (related c strict) c h v s := by
  obtain ⟨name, hg⟩ := Catalog.shape_eq_ok.mp hshape
  cases hs with
  | nullish hn' => rw [hn] at hn'; cases hn'
  | plain hp => rw [hg] at hp; exact hp.elim
  | intersection hg' _ => rw [hg] at hg'; cases hg'
  | union hg' _ _ => rw [hg] at hg'; cases hg'
  | object hm => exact mem_objectRules_gfp_iff.mp hm

/-! ## One step of subsumption -/

/-- The pairs that subsumption puts into the conformance relation. -/
def subsumed (c : Catalog) (h : Heap) (strict : Bool) : Set (Value × TypeRef) :=
  { p | h.BufferFree p.1 ∧ c.Definite p.2 ∧
      ∃ s, (p.1, s) ∈ settled c h strict ∧ c.AnyFree s ∧ .type s p.2 ∈ related c strict }

section
variable (hv : h.BufferFree v) (ht : c.Definite t) (hs : (v, s) ∈ settled c h strict) (ha : c.AnyFree s)
  (hn : v.isNullish = false)
include hv ht hs ha hn

theorem property_subsumed {source target : Shape} {p : String × Property} (hsource : c.shape s = .ok source)
    (htarget : c.shape t = .ok target) (hp : p ∈ target.properties.toList)
    (hstep : Compatibility.PropertyStep (related c strict) source p.1 p.2) :
    PropertyStep (subsumed c h strict) (h.properties v) p.1 p.2 := by
  have hrequired : p.2.optional = false := ht.required .refl htarget p hp
  unfold Compatibility.PropertyStep at hstep
  cases hf : source.properties.find? p.1 with
  | none => simp [hf, hrequired] at hstep
  | some own =>
    simp only [hf, hrequired, Bool.false_eq_true, imp_false, Bool.not_eq_true] at hstep
    obtain ⟨hown, hrel⟩ := hstep
    have hmem := Members.find?_eq_some_iff.mp hf
    obtain ⟨shape, hshape, -, -, hprops, -⟩ := reference_of_settled hs hn hsource
    rw [hsource] at hshape
    cases hshape
    obtain ⟨hvalue, hthere⟩ := hprops _ hmem
    simp only [hown, Bool.false_eq_true, false_or] at hthere
    obtain ⟨u, hu⟩ := Option.isSome_iff_exists.mp hthere
    have hs' : .type own.type ∈ c.refs (.type s) := by
      rw [Catalog.refs_of_shape hsource]; exact Shape.property_mem_refs hmem
    have ht' : .type p.2.type ∈ c.refs (.type t) := by
      rw [Catalog.refs_of_shape htarget]; exact Shape.property_mem_refs hp
    refine ⟨?_, .inr hthere⟩
    rw [hu, Option.getD_some] at hvalue ⊢
    exact ⟨hv.of_refers (.property hu), ht.of_refs ht', own.type, hvalue, ha.of_refs hs', hrel⟩

theorem index_subsumed {source target : Shape} {index : TypeRef} (hsource : c.shape s = .ok source)
    (htarget : c.shape t = .ok target) (hindex : index ∈ target.numericIndex)
    (hstep : Compatibility.IndexStep (related c strict) source.numericIndex target.numericIndex) :
    IndexStep (subsumed c h strict) c h v index := by
  obtain ⟨own, hown, hrel⟩ := hstep index hindex
  obtain ⟨shape, hshape, -, -, -, -, hindices⟩ := reference_of_settled hs hn hsource
  rw [hsource] at hshape
  cases hshape
  have hstep := hindices own hown
  have hs' : .type own ∈ c.refs (.type s) := by
    rw [Catalog.refs_of_shape hsource]; exact Shape.numericIndex_mem_refs hown
  have ht' : .type index ∈ c.refs (.type t) := by
    rw [Catalog.refs_of_shape htarget]; exact Shape.numericIndex_mem_refs hindex
  cases v with
  | buffer r => exact (hv r .refl).elim
  | array r =>
    intro element he
    exact ⟨hv.of_refers (.element he), ht.of_refs ht', own, hstep element he, ha.of_refs hs', hrel⟩
  | _ => trivial

theorem object_subsumed {source target : Shape} (hsource : c.shape s = .ok source) (htarget : c.shape t = .ok target)
    (hstep : Compatibility.ShapeStep (related c strict) source target) :
    ReferenceStep (subsumed c h strict) (related c strict) c h v t := by
  obtain ⟨hprops, -, -, hnumeric, -⟩ := hstep
  obtain ⟨hcall, hconstruct⟩ := ht.no_signatures htarget
  obtain ⟨shape, hshape, hid, -, -, htag, -⟩ := reference_of_settled hs hn hsource
  refine ⟨target, htarget, hid, ?_, ?_, ?_, ?_⟩
  · simp [Shape.hasSignatures, hcall, hconstruct]
  · exact fun p hp => property_subsumed hv ht hs ha hn hsource htarget hp (hprops p hp)
  · -- a target without signatures asks of a tag only that it is an object type, and it is one for the source
    intro r hr tag htag'
    obtain hrefl | ⟨own, hown, -⟩ := Compatibility.mem_related_iff.mp (htag r hr tag htag')
    · cases hrefl
    · refine Compatibility.mem_related_iff.mpr (.inr ⟨own, hown, target, htarget, ?_, ?_⟩)
      · simp [Compatibility.SignaturesStep, hcall]
      · simp [Compatibility.SignaturesStep, hconstruct]
  · exact fun index hindex => index_subsumed hv ht hs ha hn hsource htarget hindex hnumeric

end

theorem plain_subsumed (hs : (v, s) ∈ settled c h strict) (hn : v.isNullish = false)
    (hstep : TargetStep (related c strict) c s t)
    (ht : c.tag t ≠ .union ∧ c.tag t ≠ .intersection ∧ c.tag t ≠ .object) : Plain v (c.get t) := by
  have hplain := plain_of_settled hs hn
  unfold TargetStep at hstep
  simp only [Catalog.tag] at hstep hplain ht
  cases hg : c.get t with
  | any => trivial
  | boolean =>
    rw [hg] at hstep
    cases hgs : c.get s with
    | boolean => simpa [hgs, Descriptor.tag] using hplain
    | booleanLiteral e => simp [hgs, Descriptor.tag, Plain] at hplain; simp [hplain, Plain, Value.typeName]
    | _ => simp [hgs, Descriptor.tag] at hstep
  | numeric =>
    rw [hg] at hstep
    cases hgs : c.get s with
    | numeric => simpa [hgs, Descriptor.tag] using hplain
    | numericLiteral e =>
      simp only [hgs, Descriptor.tag, Plain] at hplain
      obtain ⟨x, rfl, -⟩ := hplain (by decide)
      rfl
    | _ => simp [hgs, Descriptor.tag] at hstep
  | string =>
    rw [hg] at hstep
    cases hgs : c.get s with
    | string => simpa [hgs, Descriptor.tag] using hplain
    | stringLiteral e => simp [hgs, Descriptor.tag, Plain] at hplain; simp [hplain, Plain, Value.typeName]
    | _ => simp [hgs, Descriptor.tag] at hstep
  | booleanLiteral expected =>
    rw [hg] at hstep
    simpa [hstep, Descriptor.tag] using hplain
  | numericLiteral expected =>
    rw [hg] at hstep
    obtain ⟨actual, hgs, heq⟩ := hstep
    simp only [hgs, Descriptor.tag, Plain] at hplain
    obtain ⟨x, hx, hxa⟩ := hplain (by decide)
    exact ⟨x, hx, Double.equals_trans hxa heq⟩
  | stringLiteral expected =>
    rw [hg] at hstep
    simpa [hstep, Descriptor.tag] using hplain
  | void | null | never =>
    rw [hg] at hstep
    cases hgs : c.get s <;> simp [hgs, Descriptor.tag, Plain] at hstep hplain
  | typeParameter name =>
    rw [hg] at hstep
    exact hstep.elim
  | intersection members name => simp [hg, Descriptor.tag] at ht
  | union members name => simp [hg, Descriptor.tag] at ht
  | object name shape => simp [hg, Descriptor.tag] at ht

theorem target_subsumed (hv : h.BufferFree v) (ht : c.Definite t) (hs : (v, s) ∈ settled c h strict)
    (ha : c.AnyFree s) (hn : v.isNullish = false) (hstep : TargetStep (related c strict) c s t) :
    Step (subsumed c h strict) (related c strict) c h v t := by
  cases hg : c.get t with
  | intersection members name =>
    simp only [TargetStep, hg] at hstep
    refine .inr ?_
    rw [hg]
    exact fun member hm =>
      ⟨hv, ht.of_refs (Catalog.intersection_mem_refs hm hg), s, hs, ha, hstep member hm⟩
  | union members name =>
    simp only [TargetStep, hg] at hstep
    obtain ⟨member, hm, hrel⟩ := hstep
    refine .inr ?_
    rw [hg]
    exact ⟨member, hm, hv, ht.of_refs (Catalog.union_mem_refs hm hg), s, hs, ha, hrel⟩
  | object name shape =>
    simp only [TargetStep, hg] at hstep
    obtain ⟨target, htarget, source, hsource, hshape⟩ := hstep
    exact .of_reference (object_subsumed hv ht hs ha hn hsource htarget hshape)
  | _ => exact .of_plain (plain_subsumed hs hn hstep (by simp [Catalog.tag, hg, Descriptor.tag]))

/-- Of the types that are compatible with everything only `any` has values other than `null` and `undefined`. -/
theorem not_universal (hs : (v, s) ∈ settled c h strict) (ha : c.AnyFree s) (hn : v.isNullish = false) :
    Compatibility.isUniversal strict (c.get s) = false := by
  have hplain := plain_of_settled hs hn
  have hany := ha s .refl
  simp only [Catalog.tag] at hplain
  unfold Compatibility.isUniversal
  cases hg : c.get s with
  | any => exact absurd hg hany
  | void | null => simp [hg, Descriptor.tag, Plain] at hplain
  | _ => simp [Descriptor.tag, Tag.isUniversalSource]

theorem related_cases (hs : (v, s) ∈ settled c h strict) (ha : c.AnyFree s) (hn : v.isNullish = false)
    (hrel : .type s t ∈ related c strict) :
    s = t ∨ match c.get s with
      | .typeParameter _ => False
      | .union members _ => ∀ member ∈ members, .type member t ∈ related c strict
      | _ => TargetStep (related c strict) c s t := by
  obtain hrefl | huniversal | hstep := Compatibility.mem_related_iff.mp hrel
  · exact .inl (eq_of_beq hrefl)
  · rw [not_universal hs ha hn] at huniversal
    cases huniversal
  · exact .inr hstep

theorem step_subsumed_of_not_union (hu : ∀ members name, c.get s ≠ .union members name) (hv : h.BufferFree v)
    (ht : c.Definite t) (hs : (v, s) ∈ settled c h strict) (ha : c.AnyFree s) (hn : v.isNullish = false)
    (hrel : .type s t ∈ related c strict) :
    Step (subsumed c h strict ∪ settled c h strict) (related c strict) c h v t := by
  obtain rfl | hstep := related_cases hs ha hn hrel
  · exact (step_of_settled hs).mono Set.subset_union_right
  · have hstep : TargetStep (related c strict) c s t := by
      cases hg : c.get s with
      | typeParameter name => rw [hg] at hstep; exact hstep.elim
      | union members name => exact absurd hg (hu members name)
      | _ => rw [hg] at hstep; exact hstep
    exact (target_subsumed hv ht hs ha hn hstep).mono Set.subset_union_left

/-- Subsumption holds in one step, and leads to pairs for which it holds again. -/
theorem step_subsumed (hv : h.BufferFree v) (ht : c.Definite t)
    (hs : Settled c (objectRules c h strict).gfp v s) (ha : c.AnyFree s) (hrel : .type s t ∈ related c strict) :
    Step (subsumed c h strict ∪ settled c h strict) (related c strict) c h v t := by
  cases hn : v.isNullish with
  | true => exact .inl hn
  | false =>
    -- the induction goes through the unions of the source; the target stays the same
    induction hs with
    | nullish hn' => rw [hn] at hn'; cases hn'
    | plain hp =>
      refine step_subsumed_of_not_union (fun members name hg => ?_) hv ht (.plain hp) ha hn hrel
      rw [hg] at hp
      exact hp
    | intersection hg hm _ =>
      exact step_subsumed_of_not_union (by simp [hg]) hv ht (.intersection hg hm) ha hn hrel
    | object ho =>
      obtain ⟨name, shape, hg⟩ := object_of_mem_gfp ho
      exact step_subsumed_of_not_union (by simp [hg]) hv ht (.object ho) ha hn hrel
    | union hg hm hs ih =>
      obtain rfl | hstep := related_cases (.union hg hm hs) ha hn hrel
      · exact (step_of_settled (.union hg hm hs)).mono Set.subset_union_right
      · rw [hg] at hstep
        exact ih (ha.of_refs (Catalog.union_mem_refs hm hg)) (hstep _ hm)

theorem subsumed_subset_conforming : subsumed c h strict ⊆ conforming c h strict := by
  refine fun p hp => subset_conforming (X := subsumed c h strict ∪ settled c h strict) ?_ (.inl hp)
  rintro v t (⟨hv, ht, s, hs, ha, hrel⟩ | hs)
  · exact step_subsumed hv ht hs ha hrel
  · exact (step_of_settled hs).mono Set.subset_union_right

end Conformance

/-! ## Subsumption between the answers of engines -/

section
variable {options₁ options₂ options₃ : Options} {filter₁ filter₂ filter₃ : Log.Filter} {c : Catalog}
  {h h₁ h₂ h₃ : Heap} {w₁ w₂ w₃ : World} {v : Value} {s t : TypeRef} {b : Bool}

end

theorem ownSuccessor_bufferFree : ownSuccessor.BufferFree (.object ⟨0⟩) := by
  have hall : ∀ u, ReflTransGen ownSuccessor.Refers (.object ⟨0⟩) u → u = .object ⟨0⟩ ∨ ∃ x, u = .number x := by
    intro u hu
    induction hu with
    | refl => exact .inl rfl
    | @tail _ u _ hstep ih =>
      obtain rfl | ⟨x, rfl⟩ := ih
      · cases hstep with
        | @property _ _ key hkey =>
          have hmem : (key, u) ∈ [("next", .object ⟨0⟩), ("id", .number (.ofNat 5))] :=
            Members.find?_eq_some_iff.mp hkey
          simp only [List.mem_cons, Prod.mk.injEq, List.not_mem_nil, or_false] at hmem
          exact hmem.imp And.right fun hid => ⟨_, hid.2⟩
      · cases hstep with
        | property hkey => cases hkey
  intro r hr
  obtain hbad | ⟨x, hbad⟩ := hall _ hr <;> cases hbad

theorem endlessLists_anyFree (t : TypeRef) : endlessLists.AnyFree t := by
  rintro ⟨i⟩ -
  match i with
  | 0 | 1 | 2 => exact nofun
  | i + 3 => simp [endlessLists, Catalog.get]

theorem endlessLists_definite : endlessLists.Definite ⟨2⟩ := by
  have hall : ∀ g, endlessLists.Reaches (.type ⟨2⟩) g → g = .type ⟨2⟩ := by
    intro g hg
    induction hg with
    | refl => rfl
    | tail _ hstep ih =>
      subst ih
      exact List.mem_singleton.mp hstep
  refine ⟨fun x hx => ?_, fun {u shape} hu hshape => ?_⟩
  · cases hall _ hx
  · cases hall _ hu
    cases hshape
    decide

end TypeContracts
