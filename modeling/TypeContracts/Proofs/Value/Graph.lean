import Mathlib.Data.Set.Card
import Mathlib.Data.Set.Finite.List
import TypeContracts.Proofs.Descriptor.Graph
import TypeContracts.Proofs.Value.Inheritance

/-!
# The graph of values

Which values a value refers to, and which reference values can be reached from
it. These are finitely many, because a heap stores finitely many values.
-/

namespace TypeContracts

open Relation (ReflTransGen)

namespace Heap

inductive Refers (h : Heap) : Value → Value → Prop
  | property {v u key} : (h.properties v).get? key = some u → Refers h v u
  | element {r u} : u ∈ (h.elements r).toList → Refers h (.array r) u

def references (h : Heap) (v : Value) : Set Value := { u | ReflTransGen h.Refers v u ∧ u.identity?.isSome = true }

def stored (h : Heap) : List Value :=
  h.arrays.toList.flatMap Array.toList ++ h.objects.toList.flatMap (fun o => o.properties.toList.map Prod.snd) ++
    h.functions.toList.flatMap fun f => f.properties.toList.map Prod.snd

variable {h : Heap} {u v : Value} {key : String}

theorem mem_stored_of_elements {r : ArrayRef} (hu : u ∈ (h.elements r).toList) : u ∈ h.stored := by
  obtain hmem | hnone := getD_mem_or h.arrays r.index #[]
  · simp only [stored, List.mem_append, List.mem_flatMap]
    exact .inl (.inl ⟨_, hmem, hu⟩)
  · rw [elements, hnone] at hu
    cases hu

theorem mem_stored_of_object {r : ObjectRef} {p : String × Value} (hp : p ∈ (h.object r).properties.toList) :
    p.2 ∈ h.stored := by
  obtain hmem | hnone := getD_mem_or h.objects r.index default
  · simp only [stored, List.mem_append, List.mem_flatMap]
    exact .inl (.inr ⟨_, hmem, List.mem_map_of_mem hp⟩)
  · rw [object, hnone] at hp
    cases hp

theorem mem_stored_of_function {r : FunctionRef} {p : String × Value} (hp : p ∈ (h.function r).properties.toList) :
    p.2 ∈ h.stored := by
  obtain hmem | hnone := getD_mem_or h.functions r.index default
  · simp only [stored, List.mem_append, List.mem_flatMap]
    exact .inr ⟨_, hmem, List.mem_map_of_mem hp⟩
  · rw [function, hnone] at hp
    cases hp

theorem mem_stored_of_chain {budget : Nat} {start : Option ObjectRef} {o : Object} {p : String × Value}
    (ho : o ∈ h.chainWithin budget start) (hp : p ∈ o.properties.toList) : p.2 ∈ h.stored := by
  induction budget generalizing start with
  | zero => cases ho
  | succ budget ih =>
    cases start with
    | none => cases ho
    | some r =>
      obtain rfl | ho := List.mem_cons.mp ho
      · exact mem_stored_of_object hp
      · exact ih ho

theorem mem_stored_of_inherit {own : Members Value} {start : Option ObjectRef}
    (hown : ∀ p ∈ own.toList, p.2 ∈ h.stored) (hu : (inherit own (h.chain start)).find? key = some u) :
    u ∈ h.stored := by
  rw [find?_inherit] at hu
  obtain ⟨m, hm, hfound⟩ := List.exists_of_findSome?_eq_some hu
  have hentry := Members.find?_eq_some_iff.mp hfound
  obtain rfl | hm := List.mem_cons.mp hm
  · exact hown _ hentry
  · obtain ⟨o, ho, rfl⟩ := List.mem_map.mp hm
    exact mem_stored_of_chain ho hentry

theorem mem_of_get?_indexed {elements : Array Value} (hu : (Properties.indexed elements).get? key = some u)
    (href : u.identity?.isSome = true) : u ∈ elements.toList := by
  simp only [Properties.get?] at hu
  split at hu
  · cases hu
    cases href
  · obtain ⟨i, -, hi⟩ := Option.bind_eq_some_iff.mp hu
    exact Array.mem_toList_iff.mpr (Array.mem_of_getElem? hi)

/-- A reference value that something refers to is stored in the heap. -/
theorem Refers.mem_stored (hr : h.Refers v u) (href : u.identity?.isSome = true) : u ∈ h.stored := by
  cases hr with
  | element hu => exact mem_stored_of_elements hu
  | @property _ _ key hu =>
    cases v with
    | object r => exact mem_stored_of_inherit (fun p hp => mem_stored_of_object hp) hu
    | function r => exact mem_stored_of_inherit (fun p hp => mem_stored_of_function hp) hu
    | array r => exact mem_stored_of_elements (mem_of_get?_indexed hu href)
    | buffer r =>
      have hmem := mem_of_get?_indexed hu href
      simp only [Array.toList_map, List.mem_map] at hmem
      obtain ⟨x, -, rfl⟩ := hmem
      cases href
    | view r =>
      simp only [properties, Properties.get?] at hu
      split at hu
      · cases hu
        cases href
      · cases hu
    | _ => cases hu

theorem references_subset (h : Heap) (v : Value) : h.references v ⊆ insert v { u | u ∈ h.stored } := by
  intro u ⟨hr, href⟩
  obtain rfl | ⟨w, -, hw⟩ := ReflTransGen.cases_tail hr
  · exact .inl rfl
  · exact .inr (hw.mem_stored href)

theorem finite_references (h : Heap) (v : Value) : (h.references v).Finite :=
  ((List.finite_toSet h.stored).insert v).subset (h.references_subset v)

theorem ncard_references_le (h : Heap) (v : Value) : (h.references v).ncard ≤ h.stored.length + 1 := by
  classical
  have hset : { u | u ∈ h.stored } = (h.stored.toFinset : Set Value) := by
    ext u
    simp
  have hle := Set.ncard_le_ncard (h.references_subset v) ((List.finite_toSet h.stored).insert v)
  have hinsert := Set.ncard_insert_le v { u | u ∈ h.stored }
  rw [hset, Set.ncard_coe_finset] at hinsert
  have hlength := List.toFinset_card_le h.stored
  rw [hset] at hle
  omega

def tags (h : Heap) (v : Value) : Set Handle :=
  { g | ∃ f, .function f ∈ h.references v ∧ ∃ tag ∈ (h.function f).tag, g = .type tag }

/-- The first type stands in where there is no tag. -/
def tagOf (h : Heap) : Value → Handle
  | .function f => .type ((h.function f).tag.getD ⟨0⟩)
  | _ => .type ⟨0⟩

theorem finite_tags (h : Heap) (v : Value) : (h.tags v).Finite := by
  refine ((h.finite_references v).image h.tagOf).subset ?_
  rintro g ⟨f, hf, tag, htag, hg⟩
  refine ⟨.function f, hf, ?_⟩
  simp only [tagOf, Option.mem_def.mp htag, Option.getD_some, hg]

end Heap

end TypeContracts
