import TypeContracts.Conformance
import TypeContracts.Proofs.Compatibility.Rules
import TypeContracts.Proofs.Value.Graph

/-!
# What value checks are made of

A property of checks that is kept by sequencing, holds of answers and of
failures, is kept by the guard around object types and holds of the judgments
on tags, holds of every value check (`unrolled_of_parts`). The types that a
check meets are all reached from the one it starts with, and so are the values.
Two ways to answer questions that are related lead to related checks
(`rule_related`).
-/

namespace TypeContracts

theorem Catalog.isViolation_of_shape {c : Catalog} {t : TypeRef} {e : Failure} (h : c.shape t = .error e) :
    e.isViolation = false := by
  unfold Catalog.shape at h
  split at h <;> cases h <;> rfl

theorem Catalog.Blames.isViolation {c : Catalog} {t : TypeRef} {e : Failure} (h : c.Blames t e) :
    e.isViolation = false := by
  cases e with
  | violation cause => exact h.elim
  | _ => rfl

namespace Conformance

/-- The recursion of value checks, cut off after `n` questions nested in each other: what is asked then is left to
`stop`. -/
def unrolled (c : Catalog) (h : Heap) (stop : Value → TypeRef → Check Bool) : Nat → Value → TypeRef → Check Bool
  | 0, v, t => stop v t
  | n + 1, v, t => if v.isNullish then return true else rule c h (unrolled c h stop n) v t

theorem checkWithin_eq_unrolled (c : Catalog) (h : Heap) (budget : Nat) :
    checkWithin c h budget = unrolled c h (checkWithin c h 0) budget := by
  induction budget with
  | zero => rfl
  | succ budget ih =>
    funext v t
    simp only [checkWithin, unrolled, ih]

section
variable {E : Set Failure} {R : Check Bool → Check Bool → Prop} (hR : Relational E R) {c : Catalog} {h : Heap}
  {ask : Value → TypeRef → Check Bool} (ask' : Value → TypeRef → Check Bool) {v : Value} {t : TypeRef}
include hR

theorem objectRule_related {shape : Shape}
    (hproperties : ∀ p ∈ shape.properties.toList, R (ask (((h.properties v).get? p.1).getD .undefined) p.2.type)
      (ask' (((h.properties v).get? p.1).getD .undefined) p.2.type))
    (htag : ∀ f tag, v = .function f → (h.function f).tag = some tag →
      R (Compatibility.tagMatches c tag t) (Compatibility.tagMatches c tag t))
    (helements : ∀ r index, v = .array r → shape.numericIndex = some index → ∀ u ∈ (h.elements r).toList,
      R (ask u index) (ask' u index)) : R (objectRule c h ask v t shape) (objectRule c h ask' v t shape) := by
  unfold objectRule
  simp only [Compatibility.allOf, List.allM_cons, List.allM_nil, id]
  have hlast : ∀ {m m' : Check Bool}, R m m' → R (do if ← m then return true else return false)
      (do if ← m' then return true else return false) := by
    intro m m' hm
    refine hR.bind hm fun b => ?_
    cases b <;> exact hR.pure _
  have hand : ∀ {m m' n n' : Check Bool}, R m m' → R n n' → R (do if ← m then n else return false)
      (do if ← m' then n' else return false) := by
    intro m m' n n' hm hn
    refine hR.bind hm fun b => ?_
    cases b with
    | true => exact hn
    | false => exact hR.pure false
  refine hand (hR.allM _ fun p hp => ?_) (hand ?_ (hlast ?_))
  · refine hR.bind (hproperties p hp) fun b => ?_
    cases b <;> exact hR.pure _
  · unfold callableRule
    cases v with
    | function f =>
      dsimp only
      split
      · exact htag f _ rfl ‹_›
      · exact hR.pure true
    | _ => exact hR.pure true
  · cases hindex : shape.numericIndex with
    | none => exact hR.pure true
    | some index =>
      dsimp only
      unfold indexRule
      cases v with
      | array r => exact hR.allM _ fun u hu => helements r index rfl hindex u hu
      | buffer r =>
        dsimp only
        split <;> exact hR.pure _
      | _ => exact hR.pure true

theorem rule_related (hfail : ∀ e, c.Blames t e → e ∈ E)
    (hmembers : c.tag t ≠ .object → ∀ u, .type u ∈ c.refs (.type t) → R (ask v u) (ask' v u))
    (hobject : ∀ value shape, v.identity? = some value → c.shape t = .ok shape →
      R (guarded value t (objectRule c h ask v t shape)) (guarded value t (objectRule c h ask' v t shape))) :
    R (rule c h ask v t) (rule c h ask' v t) := by
  unfold rule
  cases hg : c.get t with
  | intersection members name =>
    have htag : c.tag t ≠ .object := by simp [Catalog.tag, hg, Descriptor.tag]
    exact hR.allM _ fun member hm => hmembers htag member (Catalog.intersection_mem_refs hm hg)
  | union members name =>
    have htag : c.tag t ≠ .object := by simp [Catalog.tag, hg, Descriptor.tag]
    exact hR.anyM _ fun member hm => hmembers htag member (Catalog.union_mem_refs hm hg)
  | typeParameter name =>
    exact hR.throw (hfail _ (by simp [Catalog.Blames, Catalog.tag, hg, Descriptor.tag]))
  | booleanLiteral expected | numericLiteral expected | stringLiteral expected => cases v <;> exact hR.pure _
  | object name shape =>
    dsimp only
    cases hshape : c.shape t with
    | error e =>
      obtain ⟨rfl, rfl⟩ := Catalog.shape_error_of_object hg hshape
      exact hR.throw (hfail _ hg)
    | ok shape =>
      simp only [Check.ofExcept, pure_bind]
      unfold referenceRule
      cases hvalue : v.identity? with
      | none => exact hR.pure false
      | some value =>
        dsimp only
        split
        · exact hR.pure false
        · exact hobject value shape hvalue hshape
  | _ => exact hR.pure _

end

section
variable {E : Set Failure} {P : Check Bool → Prop} {c : Catalog} {h : Heap} {S : Set Handle} {V : Set Value}
  (hP : Compositional E P) (hclosed : ∀ g ∈ S, ∀ g' ∈ c.refs g, g' ∈ S)
  (hvalues : ∀ v ∈ V, ∀ u, h.Refers v u → u ∈ V) (hfail : ∀ {t e}, .type t ∈ S → c.Blames t e → e ∈ E)
  (hguard : ∀ {v value t shape m}, v ∈ V → v.identity? = some value → .type t ∈ S → c.shape t = .ok shape → P m →
    P (guarded value t m))
  (htag : ∀ {f tag t shape}, .function f ∈ V → (h.function f).tag = some tag → .type t ∈ S → c.shape t = .ok shape →
    P (Compatibility.tagMatches c tag t))
include hP hclosed hvalues hfail hguard htag

theorem rule_of_parts {ask : Value → TypeRef → Check Bool}
    (hask : ∀ v t, (v.isNullish = false → v ∈ V) → .type t ∈ S → P (ask v t)) {v : Value} (hv : v ∈ V) {t : TypeRef}
    (ht : .type t ∈ S) : P (rule c h ask v t) := by
  refine rule_related hP.relational ask (fun e => hfail ht) (fun _ u hu => ?_)
    fun value shape hvalue hshape => ?_
  · exact hask v u (fun _ => hv) (hclosed _ ht _ hu)
  · have hrefs : ∀ g ∈ shape.refs, g ∈ S := by
      rw [← Catalog.refs_of_shape hshape]
      exact hclosed _ ht
    refine hguard hv hvalue ht hshape (objectRule_related hP.relational ask ?_ ?_ ?_)
    · intro p hp
      refine hask _ _ (fun hn => ?_) (hrefs _ (Shape.property_mem_refs hp))
      cases hget : (h.properties v).get? p.1 with
      | none => rw [hget] at hn; cases hn
      | some u => exact hvalues v hv _ (.property hget)
    · intro f tag hvf hf
      subst hvf
      exact htag hv hf ht hshape
    · intro r index hvr hindex u hu
      subst hvr
      exact hask u index (fun _ => hvalues _ hv _ (.element hu)) (hrefs _ (Shape.numericIndex_mem_refs hindex))

theorem unrolled_of_parts {stop : Value → TypeRef → Check Bool} (hstop : ∀ v t, P (stop v t)) (n : Nat) {v : Value}
    (hv : v.isNullish = false → v ∈ V) {t : TypeRef} (ht : .type t ∈ S) : P (unrolled c h stop n v t) := by
  induction n generalizing v t with
  | zero => exact hstop v t
  | succ n ih =>
    unfold unrolled
    split
    · exact hP.pure true
    · rename_i hn
      have hv := hv (Bool.eq_false_iff.mpr hn)
      exact rule_of_parts hP hclosed hvalues hfail hguard htag (fun v t hv ht => ih hv ht) hv ht

theorem checkWithin_of_parts (hlimit : .recursionLimit .checkingValue ∈ E) (n : Nat) {v : Value}
    (hv : v.isNullish = false → v ∈ V) {t : TypeRef} (ht : .type t ∈ S) : P (checkWithin c h n v t) := by
  rw [checkWithin_eq_unrolled]
  refine unrolled_of_parts hP hclosed hvalues hfail hguard htag (fun v t => ?_) n hv ht
  unfold checkWithin
  split
  · exact hP.pure true
  · exact hP.throw hlimit

theorem isType_of_parts (hlimit : .recursionLimit .checkingValue ∈ E)
    (hread : ∀ f : Context → Check Bool, (∀ s, P (f s)) → P (get >>= f)) {v : Value}
    (hv : v.isNullish = false → v ∈ V) {t : TypeRef} (ht : .type t ∈ S) : P (isType c h v t) :=
  hread _ fun _ => checkWithin_of_parts hP hclosed hvalues hfail hguard htag hlimit _ hv ht

end

end Conformance

end TypeContracts
