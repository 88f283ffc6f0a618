import TypeContracts.Proofs.Conformance.Subsumption
import TypeContracts.Proofs.Descriptor.Reach

/-!
# Laws of the compatibility relation

Strict mode takes universal sources away and adds nothing, so the strict
relation is a part of the other one (`related_strict_subset`).

The relation is not transitive: `any` lies between any two types, and optional
properties and signatures are compared in ways that do not compose. Where no
`any` is reached from the type in the middle, and neither a signature nor an
optional property from the target, it is (`related_trans`).
-/

namespace TypeContracts.Compatibility

variable {c : Catalog} {strict : Bool} {s m t : TypeRef}

/-! ## Strict mode -/

theorem isUniversal_of_strict {d : Descriptor} (h : isUniversal true d = true) : isUniversal false d = true := by
  simp only [isUniversal, Bool.and_eq_true] at h ⊢
  exact ⟨h.1, rfl⟩

theorem related_strict_subset (c : Catalog) : related c true ⊆ related c false := by
  -- the strict relation is supported by itself under the other rules
  refine OrderHom.le_gfp _ fun j hj => ?_
  obtain hrefl | hrule := mem_related_iff.mp hj
  · exact .inl hrefl
  · refine .inr ?_
    cases j with
    | type s t => exact Or.imp_left isUniversal_of_strict hrule
    | signature x y => exact hrule
    | functionTag tag target => exact hrule

/-! ## Transitivity -/

def chained (c : Catalog) (strict : Bool) : Set Judgment :=
  { j | ∃ s m t, j = .type s t ∧ c.AnyFree m ∧ c.Definite t ∧ .type s m ∈ related c strict ∧
      .type m t ∈ related c strict }

section
variable (hm : c.AnyFree m) (ht : c.Definite t) {source middle target : Shape} (hmiddle : c.shape m = .ok middle)
  (htarget : c.shape t = .ok target)
include hm ht hmiddle htarget

theorem property_chained {p : String × Property} (hp : p ∈ target.properties.toList)
    (h₁ : ∀ q ∈ middle.properties.toList, PropertyStep (related c strict) source q.1 q.2)
    (h₂ : PropertyStep (related c strict) middle p.1 p.2) : PropertyStep (chained c strict) source p.1 p.2 := by
  have hrequired : p.2.optional = false := ht.required .refl htarget p hp
  unfold PropertyStep at h₂
  cases hf : middle.properties.find? p.1 with
  | none => simp [hf, hrequired] at h₂
  | some between =>
    simp only [hf, hrequired, Bool.false_eq_true, imp_false, Bool.not_eq_true] at h₂
    obtain ⟨hbetween, hrel₂⟩ := h₂
    have hmem := Members.find?_eq_some_iff.mp hf
    have h₁ := h₁ _ hmem
    unfold PropertyStep at h₁ ⊢
    cases hg : source.properties.find? p.1 with
    | none => simp [hg, hbetween] at h₁
    | some own =>
      simp only [hg, hbetween, Bool.false_eq_true, imp_false, Bool.not_eq_true] at h₁
      obtain ⟨hown, hrel₁⟩ := h₁
      have hm' : .type between.type ∈ c.refs (.type m) := by
        rw [Catalog.refs_of_shape hmiddle]; exact Shape.property_mem_refs hmem
      have ht' : .type p.2.type ∈ c.refs (.type t) := by
        rw [Catalog.refs_of_shape htarget]; exact Shape.property_mem_refs hp
      refine ⟨by simp [hown], ?_⟩
      exact ⟨_, between.type, _, rfl, hm.of_refs hm', ht.of_refs ht', hrel₁, hrel₂⟩

theorem index_chained {own between wanted : Option TypeRef}
    (hbetween : ∀ u ∈ between, .type u ∈ middle.refs) (hwanted : ∀ u ∈ wanted, .type u ∈ target.refs)
    (h₁ : IndexStep (related c strict) own between) (h₂ : IndexStep (related c strict) between wanted) :
    IndexStep (chained c strict) own wanted := by
  intro u hu
  obtain ⟨v, hv, hrel₂⟩ := h₂ u hu
  obtain ⟨x, hx, hrel₁⟩ := h₁ v hv
  rw [← Catalog.refs_of_shape hmiddle] at hbetween
  rw [← Catalog.refs_of_shape htarget] at hwanted
  exact ⟨x, hx, x, v, u, rfl, hm.of_refs (hbetween v hv), ht.of_refs (hwanted u hu), hrel₁, hrel₂⟩

theorem shape_chained (h₁ : ShapeStep (related c strict) source middle)
    (h₂ : ShapeStep (related c strict) middle target) : ShapeStep (chained c strict) source target := by
  obtain ⟨hprops₁, -, -, hnumeric₁, hstring₁⟩ := h₁
  obtain ⟨hprops₂, -, -, hnumeric₂, hstring₂⟩ := h₂
  obtain ⟨hcall, hconstruct⟩ := ht.no_signatures htarget
  refine ⟨fun p hp => ?_, ?_, ?_, ?_, ?_⟩
  · exact property_chained hm ht hmiddle htarget hp hprops₁ (hprops₂ p hp)
  · simp [SignaturesStep, hcall]
  · simp [SignaturesStep, hconstruct]
  · exact index_chained hm ht hmiddle htarget (fun _ => Shape.numericIndex_mem_refs)
      (fun _ => Shape.numericIndex_mem_refs) hnumeric₁ hnumeric₂
  · exact index_chained hm ht hmiddle htarget (fun _ => Shape.stringIndex_mem_refs)
      (fun _ => Shape.stringIndex_mem_refs) hstring₁ hstring₂

end

/-- A type that is neither a union nor universal is met on the way to the target. -/
theorem target_chained (hm : c.AnyFree m) (ht : c.Definite t) (hrel₁ : .type s m ∈ related c strict)
    (h₁ : TargetStep (related c strict) c s m) (h₂ : TargetStep (related c strict) c m t) :
    TargetStep (chained c strict) c s t := by
  unfold TargetStep at h₂ ⊢
  simp only [TargetStep, Catalog.tag] at h₁ h₂ ⊢
  cases hg : c.get t with
  | any => trivial
  | typeParameter name => simp [hg] at h₂
  | intersection members name =>
    simp only [hg] at h₂ ⊢
    intro member hmember
    exact ⟨s, m, member, rfl, hm, ht.of_refs (Catalog.intersection_mem_refs hmember hg), hrel₁, h₂ member hmember⟩
  | union members name =>
    simp only [hg] at h₂ ⊢
    obtain ⟨member, hmember, hrel₂⟩ := h₂
    exact ⟨member, hmember, s, m, member, rfl, hm, ht.of_refs (Catalog.union_mem_refs hmember hg), hrel₁, hrel₂⟩
  | object name shape =>
    simp only [hg] at h₂ ⊢
    obtain ⟨target, htarget, middle, hmiddle, hshape₂⟩ := h₂
    obtain ⟨_, hgm⟩ := Catalog.shape_eq_ok.mp hmiddle
    simp only [hgm] at h₁
    obtain ⟨middle', hmiddle', source, hsource, hshape₁⟩ := h₁
    cases hmiddle.symm.trans hmiddle'
    exact ⟨target, htarget, source, hsource, shape_chained hm ht hmiddle htarget hshape₁ hshape₂⟩
  | numericLiteral expected =>
    simp only [hg] at h₂ ⊢
    obtain ⟨between, hgm, heq₂⟩ := h₂
    simp only [hgm] at h₁
    obtain ⟨actual, hgs, heq₁⟩ := h₁
    exact ⟨actual, hgs, Double.equals_trans heq₁ heq₂⟩
  | booleanLiteral | stringLiteral =>
    simp only [hg] at h₂ ⊢
    simpa only [h₂] using h₁
  | numeric =>
    simp only [hg] at h₂ ⊢
    cases hgm : c.get m with
    | numeric => simpa only [hgm] using h₁
    | numericLiteral between =>
      simp only [hgm] at h₁
      obtain ⟨actual, hgs, -⟩ := h₁
      simp [hgs, Descriptor.tag]
    | _ => simp [hgm, Descriptor.tag] at h₂
  | boolean | string | void | null | never =>
    simp only [hg] at h₂ ⊢
    cases hgm : c.get m <;> simp_all [Descriptor.tag]

/-- Of the universal types only `any` accepts sources that are not universal. -/
theorem isUniversal_of_target {R : Set Judgment} (hm : c.AnyFree m) (hu : isUniversal strict (c.get m) = true)
    (h : TargetStep R c s m) : isUniversal strict (c.get s) = true := by
  have hany : c.get m ≠ .any := hm m .refl
  unfold TargetStep at h
  simp only [Catalog.tag] at h
  simp only [isUniversal] at hu ⊢
  cases hg : c.get m with
  | any => exact absurd hg hany
  | void | null =>
    simp only [hg] at h hu
    rw [h]
    exact hu
  | _ => simp [hg, Descriptor.tag, Tag.isUniversalSource] at hu

/-! Types that are neither unions nor type parameters are compared with the target as they are. -/

theorem Step.of_target {R : Set Judgment} (hs : c.tag s ≠ .union ∧ c.tag s ≠ .typeParameter)
    (h : TargetStep R c s t) : Step R c strict (.type s t) := by
  refine .inr (.inr ?_)
  simp only [Catalog.tag] at hs
  split
  · simp_all [Descriptor.tag]
  · simp_all [Descriptor.tag]
  · exact h

theorem Step.of_union {R : Set Judgment} {members : List TypeRef} {name : Option String}
    (hg : c.get s = .union members name) (h : ∀ member ∈ members, .type member t ∈ R) :
    Step R c strict (.type s t) := by
  refine .inr (.inr ?_)
  simp only [hg]
  exact h

theorem related_cases (h : .type s t ∈ related c strict) :
    s = t ∨ isUniversal strict (c.get s) = true ∨
      (∃ members name, c.get s = .union members name ∧ ∀ member ∈ members, .type member t ∈ related c strict) ∨
      (c.tag s ≠ .union ∧ c.tag s ≠ .typeParameter) ∧ TargetStep (related c strict) c s t := by
  obtain hrefl | huniversal | hstep := mem_related_iff.mp h
  · exact .inl (eq_of_beq hrefl)
  · exact .inr (.inl huniversal)
  · refine .inr (.inr ?_)
    simp only [Catalog.tag]
    cases hg : c.get s with
    | typeParameter name => simp [hg] at hstep
    | union members name => exact .inl ⟨members, name, rfl, by simpa only [hg] using hstep⟩
    | _ => exact .inr ⟨by simp [Descriptor.tag], by simpa only [hg] using hstep⟩

/-- What holds by way of a type in the middle holds in one step from judgments of the same kind. The induction
goes through the unions in the middle: the source needs only one member, and that one leads to the target. -/
theorem step_chained (hc : c.Contractive) (ht : c.Definite t) {m : TypeRef} (hm : c.AnyFree m)
    (h₁ : .type s m ∈ related c strict) (h₂ : .type m t ∈ related c strict) :
    Step (chained c strict ∪ related c strict) c strict (.type s t) := by
  obtain rfl | huniversal | ⟨members, name, hg, hmembers⟩ | ⟨hs, hsource⟩ := related_cases h₁
  · exact (mem_related_iff.mp h₂).mono Set.subset_union_right
  · exact .inr (.inl huniversal)
  · exact .of_union hg fun member hmember => .inl ⟨member, m, t, rfl, hm, ht, hmembers member hmember, h₂⟩
  obtain rfl | huniversal | ⟨members, name, hg, hmembers⟩ | ⟨-, htarget⟩ := related_cases h₂
  · exact .of_target hs (hsource.mono Set.subset_union_right)
  · exact .inr (.inl (isUniversal_of_target hm huniversal hsource))
  · simp only [TargetStep, hg] at hsource
    obtain ⟨member, hmember, hrel⟩ := hsource
    have hpart : c.Part m member :=
      ⟨by simp [Catalog.tag, hg, Descriptor.tag], Catalog.union_mem_refs hmember hg⟩
    have hlt := hc.rank_lt hpart
    exact step_chained hc ht (hm.of_refs hpart.2) hrel (hmembers member hmember)
  · exact .of_target hs ((target_chained hm ht h₁ hsource htarget).mono Set.subset_union_left)
termination_by c.rank m

theorem related_trans (hc : c.Contractive) (hm : c.AnyFree m) (ht : c.Definite t)
    (h₁ : .type s m ∈ related c strict) (h₂ : .type m t ∈ related c strict) : .type s t ∈ related c strict := by
  have hsupported : chained c strict ∪ related c strict ⊆
      rules c strict (chained c strict ∪ related c strict) := by
    intro j hj
    obtain ⟨s, m, t, rfl, hm, ht, h₁, h₂⟩ | hj := hj
    · exact step_chained hc ht hm h₁ h₂
    · exact (mem_related_iff.mp hj).mono Set.subset_union_right
  exact OrderHom.le_gfp _ hsupported (.inl ⟨s, m, t, rfl, hm, ht, h₁, h₂⟩)

end TypeContracts.Compatibility
