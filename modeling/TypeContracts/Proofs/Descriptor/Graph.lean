import Mathlib.Data.Set.Basic
import Mathlib.Logic.Relation
import TypeContracts.Descriptor.Catalog
import TypeContracts.Descriptor.Identity

/-!
# The graph of descriptors

Which descriptors and signatures a descriptor refers to, and which can be
reached from it. A catalog only grows, and one that has grown back into itself
has not changed (`Grows.antisymm`).
-/

namespace TypeContracts

theorem getD_mem_or {α : Type} (a : Array α) (i : Nat) (d : α) : a.getD i d ∈ a.toList ∨ a.getD i d = d := by
  by_cases hi : i < a.size
  · simp [Array.getD, hi]
  · simp [Array.getD, hi]

def Signature.refs (x : Signature) : List Handle :=
  x.parameters.map .type ++ x.rest.toList.map .type ++ [.type x.result]

def Shape.refs (s : Shape) : List Handle :=
  s.properties.toList.map (fun p => .type p.2.type) ++ s.callSignatures.map .signature ++
    s.constructSignatures.map .signature ++ s.numericIndex.toList.map .type ++ s.stringIndex.toList.map .type

section
variable {s : Shape} {x : Signature} {t : TypeRef} {y : SignatureRef}

theorem Signature.parameter_mem_refs (h : t ∈ x.parameters) : .type t ∈ x.refs := by simp [refs, h]

theorem Signature.rest_mem_refs (h : t ∈ x.rest) : .type t ∈ x.refs := by simp_all [refs]

theorem Signature.result_mem_refs (x : Signature) : .type x.result ∈ x.refs := by simp [refs]

theorem Shape.property_mem_refs {p : String × Property} (h : p ∈ s.properties.toList) : .type p.2.type ∈ s.refs := by
  simp only [refs, List.mem_append, List.mem_map]
  exact .inl (.inl (.inl (.inl ⟨p, h, rfl⟩)))

theorem Shape.call_mem_refs (h : y ∈ s.callSignatures) : .signature y ∈ s.refs := by simp [refs, h]

theorem Shape.construct_mem_refs (h : y ∈ s.constructSignatures) : .signature y ∈ s.refs := by simp [refs, h]

theorem Shape.numericIndex_mem_refs (h : t ∈ s.numericIndex) : .type t ∈ s.refs := by simp_all [refs]

theorem Shape.stringIndex_mem_refs (h : t ∈ s.stringIndex) : .type t ∈ s.refs := by simp_all [refs]

end

def Descriptor.refs : Descriptor → List Handle
  | union members _ | intersection members _ => members.map .type
  | object _ (some shape) => shape.refs
  | _ => []

namespace Catalog

variable (c : Catalog)

def refs : Handle → List Handle
  | .type t => (c.get t).refs
  | .signature x => (c.signature x).refs

def Reaches : Handle → Handle → Prop := Relation.ReflTransGen fun g h => h ∈ c.refs g

variable {c} {t : TypeRef} {shape : Shape}

theorem Reaches.head {g g' h : Handle} (hg : g' ∈ c.refs g) (hr : c.Reaches g' h) : c.Reaches g h :=
  Relation.ReflTransGen.head hg hr

theorem shape_eq_ok : c.shape t = .ok shape ↔ ∃ name, c.get t = .object name (some shape) := by
  unfold Catalog.shape
  split
  · rename_i h; simp [h, eq_comm]
  · rename_i h; simp [h]
  · rename_i hs hn
    constructor
    · simp
    · rintro ⟨name, h⟩
      exact absurd h (hs name shape)

theorem shape_error_of_object {name : Option String} {shape? : Option Shape} {e : Failure}
    (hg : c.get t = .object name shape?) (he : c.shape t = .error e) :
    shape? = none ∧ e = .malformed (.undefinedObject name) := by
  cases shape? with
  | some shape => simp [Catalog.shape, hg] at he
  | none => simp [Catalog.shape, hg] at he; exact ⟨rfl, he.symm⟩

section
variable {members : List TypeRef} {member : TypeRef} {name : Option String} (hm : member ∈ members)
include hm

theorem union_mem_refs (hg : c.get t = .union members name) : .type member ∈ c.refs (.type t) := by
  simpa [refs, hg, Descriptor.refs] using hm

theorem intersection_mem_refs (hg : c.get t = .intersection members name) : .type member ∈ c.refs (.type t) := by
  simpa [refs, hg, Descriptor.refs] using hm

end

theorem refs_of_shape (h : c.shape t = .ok shape) : c.refs (.type t) = shape.refs := by
  obtain ⟨name, h⟩ := shape_eq_ok.mp h
  simp only [refs, h, Descriptor.refs]

end Catalog

/-! ## Growth -/

/-- Entries stay, but for object types that are declared and get their shape. -/
structure Catalog.Grows (c d : Catalog) : Prop where
  types : ∀ {i : Nat} {x : Descriptor}, c.types[i]? = some x → d.types[i]? = some x ∨
    ∃ name shape, x = .object name none ∧ d.types[i]? = some (.object name (some shape))
  signatures : ∀ {i : Nat} {x : Signature}, c.signatures[i]? = some x → d.signatures[i]? = some x

namespace Catalog.Grows

variable {c d : Catalog}

theorem refl (c : Catalog) : Grows c c := ⟨.inl, id⟩

theorem trans {e : Catalog} (h₁ : Grows c d) (h₂ : Grows d e) : Grows c e where
  types hx := by
    obtain hd | ⟨name, shape, rfl, hd⟩ := h₁.types hx
    · exact h₂.types hd
    · obtain he | ⟨_, _, hno, -⟩ := h₂.types hd
      · exact .inr ⟨name, shape, rfl, he⟩
      · cases hno
  signatures hx := h₂.signatures (h₁.signatures hx)

/-- A descriptor that is known stays, unless it is an object type that gets its shape. -/
theorem get (h : Grows c d) {t : TypeRef} (ht : t.index < c.types.size) :
    d.get t = c.get t ∨ ∃ name shape, c.get t = .object name none ∧ d.get t = .object name (some shape) := by
  have hc : c.types[t.index]? = some (c.get t) := by
    simp only [Catalog.get, Array.getD_eq_getD_getElem?, Array.getElem?_eq_getElem ht, Option.getD_some]
  have hd : ∀ {x}, d.types[t.index]? = some x → d.get t = x := by
    intro x hx
    simp only [Catalog.get, Array.getD_eq_getD_getElem?, hx, Option.getD_some]
  obtain hx | ⟨name, shape, hnone, hx⟩ := h.types hc
  · exact .inl (hd hx)
  · exact .inr ⟨name, shape, hnone, hd hx⟩

theorem signature (h : Grows c d) {x : SignatureRef} (hx : x.index < c.signatures.size) :
    d.signature x = c.signature x := by
  have hd := h.signatures (Array.getElem?_eq_getElem hx)
  simp only [Catalog.signature, Array.getD_eq_getD_getElem?, hd, Array.getElem?_eq_getElem hx]

theorem antisymm (h₁ : Grows c d) (h₂ : Grows d c) : c = d := by
  have htypes : c.types = d.types := by
    refine Array.ext_getElem? fun i => ?_
    cases hc : c.types[i]? with
    | some x =>
      obtain hd | ⟨name, shape, rfl, hd⟩ := h₁.types hc
      · exact hd.symm
      · obtain hc' | ⟨_, _, hno, -⟩ := h₂.types hd
        · rw [hc] at hc'
          cases hc'
        · cases hno
    | none =>
      cases hd : d.types[i]? with
      | none => rfl
      | some x =>
        obtain hc' | ⟨_, _, -, hc'⟩ := h₂.types hd <;> (rw [hc] at hc'; cases hc')
  have hsignatures : c.signatures = d.signatures := by
    refine Array.ext_getElem? fun i => ?_
    cases hc : c.signatures[i]? with
    | some x => exact (h₁.signatures hc).symm
    | none =>
      cases hd : d.signatures[i]? with
      | none => rfl
      | some x =>
        rw [h₂.signatures hd] at hc
        cases hc
  cases c
  cases d
  simp_all

theorem add (c : Catalog) (d : Descriptor) : Grows c (c.add d).2 := by
  refine ⟨fun {i x} hx => .inl ?_, id⟩
  have hi : i < c.types.size := (Array.getElem?_eq_some_iff.mp hx).1
  simp only [Catalog.add, Array.getElem?_push, Nat.ne_of_lt hi, if_false, hx]

theorem addSignature (c : Catalog) (s : Signature) : Grows c (c.addSignature s).2 := by
  refine ⟨.inl, fun {i x} hx => ?_⟩
  have hi : i < c.signatures.size := (Array.getElem?_eq_some_iff.mp hx).1
  simp only [Catalog.addSignature, Array.getElem?_push, Nat.ne_of_lt hi, if_false, hx]

theorem defineObject {t : TypeRef} {shape : Shape} (h : c.defineObject t shape = .ok d) : Grows c d := by
  unfold Catalog.defineObject at h
  split at h
  · rename_i name hg
    cases h
    refine ⟨fun {i x} hx => ?_, id⟩
    by_cases hi : t.index = i
    · subst hi
      have hlt : t.index < c.types.size := (Array.getElem?_eq_some_iff.mp hx).1
      have hx' : x = .object name none := by
        rw [← hg, Catalog.get, Array.getD_eq_getD_getElem?, hx]
        rfl
      exact .inr ⟨name, shape, hx', by simp [Array.getElem?_setIfInBounds_self_of_lt hlt]⟩
    · exact .inl (by rw [← hx]; simp [Array.getElem?_setIfInBounds_ne hi])
  · cases h
  · cases h

end Catalog.Grows

end TypeContracts
