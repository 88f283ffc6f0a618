import TypeContracts.Conformance
import TypeContracts.Proofs.Compatibility.Relation

/-!
# The conformance relation

The rules of conformance as conditions on a set of pairs of a value and a type
that are taken to conform, without an engine. `conforming` is the largest set
of pairs each of which follows by one rule from others in the set.

A union whose members lead back to it supports itself in this sense, though no
check ever settles it. `Settled` leaves such pairs out: it goes through unions
and intersections finitely often between two object types, and is as large as
it can be through these.
-/

namespace TypeContracts.Conformance

section
variable (X : Set (Value × TypeRef)) (K : Set Judgment) (c : Catalog) (h : Heap)

/-- Types that are decided by looking at the value alone. -/
def Plain (v : Value) : Descriptor → Prop
  | .any => True
  | .boolean => v.typeName = "boolean"
  | .numeric => v.typeName = "number"
  | .string => v.typeName = "string"
  | .booleanLiteral expected => v = .boolean expected
  | .numericLiteral expected => ∃ actual, v = .number actual ∧ actual.equals expected = true
  | .stringLiteral expected => v = .string expected
  | _ => False

def PropertyStep (properties : Heap.Properties) (name : String) (wanted : Property) : Prop :=
  ((properties.get? name).getD .undefined, wanted.type) ∈ X ∧
    (wanted.optional = true ∨ (properties.get? name).isSome = true)

def IndexStep (v : Value) (index : TypeRef) : Prop :=
  match v with
  | .buffer r =>
    match c.get index with
    | .numeric => True
    | .numericLiteral expected => ∀ x ∈ (h.buffer r).elements, x.equals expected = true
    | _ => False
  | .array r => ∀ element ∈ (h.elements r).toList, (element, index) ∈ X
  | _ => True

/-- A function's tag, if it has one, satisfies the signatures of the type. -/
def TagStep (v : Value) (t : TypeRef) : Prop :=
  ∀ r, v = .function r → ∀ tag ∈ (h.function r).tag, .functionTag tag t ∈ K

def ObjectStep (v : Value) (t : TypeRef) (shape : Shape) : Prop :=
  (∀ p ∈ shape.properties.toList, PropertyStep X (h.properties v) p.1 p.2) ∧ TagStep K h v t ∧
    ∀ index ∈ shape.numericIndex, IndexStep X c h v index

def ReferenceStep (v : Value) (t : TypeRef) : Prop :=
  ∃ shape, c.shape t = .ok shape ∧ v.identity?.isSome = true ∧
    (shape.hasSignatures = true → v.isCallable = true) ∧ ObjectStep X K c h v t shape

/-- What the pairs of `X` decide in one step, if the judgments of `K` hold. -/
def Step (v : Value) (t : TypeRef) : Prop :=
  v.isNullish = true ∨
    match c.get t with
    | .intersection members _ => ∀ member ∈ members, (v, member) ∈ X
    | .union members _ => ∃ member ∈ members, (v, member) ∈ X
    | .object .. => ReferenceStep X K c h v t
    | d => Plain v d

end

section
variable {X Y : Set (Value × TypeRef)} {K : Set Judgment} {c : Catalog} {h : Heap} {v : Value} {t : TypeRef}
  (hXY : X ⊆ Y)
include hXY

theorem IndexStep.mono (hs : IndexStep X c h v t) : IndexStep Y c h v t := by
  unfold IndexStep at *
  cases v with
  | array r => exact fun element he => hXY (hs element he)
  | _ => exact hs

theorem ReferenceStep.mono (hs : ReferenceStep X K c h v t) : ReferenceStep Y K c h v t := by
  obtain ⟨shape, hshape, hid, hsig, hp, htag, hi⟩ := hs
  exact ⟨shape, hshape, hid, hsig, fun p hp' => ⟨hXY (hp p hp').1, (hp p hp').2⟩, htag,
    fun index hindex => (hi index hindex).mono hXY⟩

theorem Step.mono (hs : Step X K c h v t) : Step Y K c h v t := by
  refine Or.imp_right (fun hs => ?_) hs
  split <;> simp_all only
  · exact fun member hm => hXY (hs member hm)
  · obtain ⟨member, hm, hx⟩ := hs
    exact ⟨member, hm, hXY hx⟩
  · exact hs.mono hXY

end

/-! ## The largest relation -/

section
variable (c : Catalog) (h : Heap) (strict : Bool)

def rules : Set (Value × TypeRef) →o Set (Value × TypeRef) where
  toFun X := { p | Step X (Compatibility.related c strict) c h p.1 p.2 }
  monotone' _ _ hXY _ hs := hs.mono hXY

def conforming : Set (Value × TypeRef) := (rules c h strict).gfp

/-- Values that conform through finitely many unions and intersections, given which pairs of a value and an
object type conform. -/
inductive Settled (O : Set (Value × TypeRef)) : Value → TypeRef → Prop
  | nullish {v t} : v.isNullish = true → Settled O v t
  | plain {v t} : Plain v (c.get t) → Settled O v t
  | intersection {v t members name} : c.get t = .intersection members name →
      (∀ member ∈ members, Settled O v member) → Settled O v t
  | union {v t members name member} : c.get t = .union members name → member ∈ members → Settled O v member →
      Settled O v t
  | object {v t} : (v, t) ∈ O → Settled O v t

end

variable {c : Catalog} {h : Heap} {strict : Bool}

theorem Settled.mono {O O' : Set (Value × TypeRef)} {v : Value} {t : TypeRef} (hO : O ⊆ O') (hs : Settled c O v t) :
    Settled c O' v t := by
  induction hs with
  | nullish hn => exact .nullish hn
  | plain hp => exact .plain hp
  | intersection hg _ ih => exact .intersection hg ih
  | union hg hm _ ih => exact .union hg hm ih
  | object ho => exact .object (hO ho)

/-- The rule for object types, with members that settle. -/
def objectRules (c : Catalog) (h : Heap) (strict : Bool) : Set (Value × TypeRef) →o Set (Value × TypeRef) where
  toFun O :=
    { p | ReferenceStep { q | Settled c O q.1 q.2 } (Compatibility.related c strict) c h p.1 p.2 }
  monotone' _ _ hO _ hs := hs.mono fun _ hq => hq.mono hO

def settled (c : Catalog) (h : Heap) (strict : Bool) : Set (Value × TypeRef) :=
  { p | Settled c (objectRules c h strict).gfp p.1 p.2 }

theorem mem_conforming_iff {v : Value} {t : TypeRef} :
    (v, t) ∈ conforming c h strict ↔ Step (conforming c h strict) (Compatibility.related c strict) c h v t := by
  unfold conforming
  conv_lhs => rw [← OrderHom.map_gfp]
  rfl

theorem subset_conforming {X : Set (Value × TypeRef)}
    (hX : ∀ v t, (v, t) ∈ X → Step X (Compatibility.related c strict) c h v t) : X ⊆ conforming c h strict :=
  OrderHom.le_gfp (rules c h strict) fun p hp => hX p.1 p.2 hp

theorem mem_objectRules_gfp_iff {v : Value} {t : TypeRef} :
    (v, t) ∈ (objectRules c h strict).gfp ↔
      ReferenceStep (settled c h strict) (Compatibility.related c strict) c h v t := by
  conv_lhs => rw [← OrderHom.map_gfp]
  rfl

theorem Step.of_plain {X : Set (Value × TypeRef)} {K : Set Judgment} {v : Value} {t : TypeRef}
    (hp : Plain v (c.get t)) : Step X K c h v t := by
  refine .inr ?_
  cases hg : c.get t <;> simp_all [Plain]

theorem Step.of_reference {X : Set (Value × TypeRef)} {K : Set Judgment} {v : Value} {t : TypeRef}
    (hr : ReferenceStep X K c h v t) : Step X K c h v t := by
  refine .inr ?_
  obtain ⟨shape, hshape, -⟩ := id hr
  obtain ⟨name, hg⟩ := Catalog.shape_eq_ok.mp hshape
  rw [hg]
  exact hr

theorem step_of_settled {v : Value} {t : TypeRef} (hs : (v, t) ∈ settled c h strict) :
    Step (settled c h strict) (Compatibility.related c strict) c h v t := by
  cases hs with
  | nullish hn => exact .inl hn
  | plain hp => exact .of_plain hp
  | intersection hg hm => exact .inr (by rw [hg]; exact hm)
  | union hg hm hs => exact .inr (by rw [hg]; exact ⟨_, hm, hs⟩)
  | object ho => exact .of_reference (mem_objectRules_gfp_iff.mp ho)

theorem settled_subset_conforming : settled c h strict ⊆ conforming c h strict :=
  subset_conforming fun _ _ hs => step_of_settled hs

end TypeContracts.Conformance
