import TypeContracts.Proofs.Conformance.Relation
import TypeContracts.Proofs.Inquiry

/-!
# The rules of conformance are inquiries

A rule of conformance asks whether values conform, and of a function's tag
whether its judgment holds. Run with any way to answer the first kind, it
decides its condition of `Step`. The guard around object types is not part of
any rule here.
-/

namespace TypeContracts.Conformance

inductive Question where
  | conforms (v : Value) (t : TypeRef)
  | relates (j : Judgment)

namespace Question

def answer (c : Catalog) (ask : Value → TypeRef → Check Bool) : Question → Check Bool
  | conforms v t => ask v t
  | relates j => Compatibility.resolve c j

/-- The questions whose answer is yes, if the pairs of `X` conform and the judgments of `K` hold. -/
def holding (X : Set (Value × TypeRef)) (K : Set Judgment) : Set Question
  | conforms v t => (v, t) ∈ X
  | relates j => j ∈ K

def pairs (R : Set Question) : Set (Value × TypeRef) := { p | conforms p.1 p.2 ∈ R }

def judgments (R : Set Question) : Set Judgment := { j | relates j ∈ R }

end Question

abbrev Asking (c : Catalog) (m : (Value → TypeRef → Check Bool) → Check Bool)
    (φ : Set (Value × TypeRef) → Set Judgment → Prop) : Prop :=
  Inquires (Question.answer c) m (fun R => φ (Question.pairs R) (Question.judgments R)) Set.univ Set.univ

section
variable {c : Catalog} {h : Heap} {v : Value} {t : TypeRef}

theorem conforms_inquires (v : Value) (t : TypeRef) : Asking c (fun ask => ask v t) fun X _ => (v, t) ∈ X :=
  Inquires.question (k := Question.conforms v t) (Set.mem_univ _)

theorem propertyRule_inquires (properties : Heap.Properties) (name : String) (wanted : Property) :
    Asking c (fun ask => propertyRule ask properties name wanted) fun X _ => PropertyStep X properties name wanted := by
  have hown := conforms_inquires (c := c) ((properties.get? name).getD .undefined) wanted.type
  have hthere : Asking c (fun _ => pure (wanted.optional || (properties.get? name).isSome))
      fun _ _ => wanted.optional = true ∨ (properties.get? name).isSome = true :=
    Inquires.pure _ fun _ => Bool.or_eq_true_iff.symm
  exact hown.and hthere

theorem indexRule_inquires (index : TypeRef) :
    Asking c (fun ask => indexRule c h ask v index) fun X _ => IndexStep X c h v index := by
  unfold indexRule IndexStep
  cases v with
  | buffer r =>
    cases hg : c.get index with
    | numericLiteral expected => exact Inquires.pure _ fun _ => Array.all_eq_true_iff_forall_mem.symm
    | _ => exact Inquires.pure _ (by simp)
  | array r => exact Inquires.allM fun element _ => conforms_inquires element index
  | _ => exact Inquires.pure true (by simp)

theorem callableRule_inquires : Asking c (fun _ => callableRule c h v t) fun _ K => TagStep K h v t := by
  unfold callableRule TagStep
  cases v with
  | function r =>
    simp only [Value.function.injEq, forall_eq']
    cases htag : (h.function r).tag with
    | none => exact Inquires.pure true (by simp)
    | some tag =>
      simp only [Option.mem_def, Option.some.injEq, forall_eq']
      exact Inquires.question (k := Question.relates (.functionTag tag t)) (Set.mem_univ _)
  | _ => exact Inquires.pure true (by simp)

theorem objectRule_inquires (shape : Shape) :
    Asking c (fun ask => objectRule c h ask v t shape) fun X K => ObjectStep X K c h v t shape := by
  unfold objectRule
  simp only [Compatibility.allOf, List.allM_cons, List.allM_nil, id]
  have hprops : Asking c
      (fun ask => shape.properties.toList.allM fun p => propertyRule ask (h.properties v) p.1 p.2)
      fun X _ => ∀ p ∈ shape.properties.toList, PropertyStep X (h.properties v) p.1 p.2 :=
    Inquires.allM fun p _ => propertyRule_inquires (h.properties v) p.1 p.2
  cases hi : shape.numericIndex with
  | none =>
    refine (hprops.and (callableRule_inquires.and (Inquires.always.and Inquires.always))).congr fun R => ?_
    simp [ObjectStep, hi]
  | some index =>
    refine (hprops.and (callableRule_inquires.and ((indexRule_inquires index).and Inquires.always))).congr fun R => ?_
    simp [ObjectStep, hi]

theorem rule_inquires (ht : ∀ name shape, c.get t ≠ .object name shape) :
    Asking c (fun ask => rule c h ask v t) fun X _ => match c.get t with
      | .intersection members _ => ∀ member ∈ members, (v, member) ∈ X
      | .union members _ => ∃ member ∈ members, (v, member) ∈ X
      | d => Plain v d := by
  unfold rule
  cases hg : c.get t with
  | object name shape => exact absurd hg (ht name shape)
  | intersection members name => exact Inquires.allM fun member _ => conforms_inquires v member
  | union members name => exact Inquires.anyM fun member _ => conforms_inquires v member
  | typeParameter name => exact Inquires.throw (Set.mem_univ _)
  | booleanLiteral expected => cases v <;> exact Inquires.pure _ (by simp [Plain])
  | numericLiteral expected => cases v <;> exact Inquires.pure _ (by simp [Plain])
  | stringLiteral expected => cases v <;> exact Inquires.pure _ (by simp [Plain])
  | _ => exact Inquires.pure _ (by simp [Plain])

end

end TypeContracts.Conformance
