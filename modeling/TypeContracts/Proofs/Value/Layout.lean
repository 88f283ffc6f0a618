import Mathlib.Data.List.Forall2
import Mathlib.Data.List.Induction
import TypeContracts.Value.Heap

/-!
# JSON values in a heap

A JSON value is made part by part, and what holds a part is made after it. So a
value never comes to hold itself: all that it holds is there already in the heap
to which it is added (`Denotes.array`, `Denotes.object`).
-/

namespace TypeContracts

/-- Of entries with one name the last one counts. -/
theorem Members.find?_ofList {α : Type} (l : List (String × α)) (name : String) :
    (Members.ofList l).find? name = l.reverse.lookup name := by
  induction l using List.reverseRecOn with
  | nil => rfl
  | append_singleton l m ih =>
    obtain ⟨key, value⟩ := m
    have hinsert : Members.ofList (l ++ [(key, value)]) = (Members.ofList l).insert key value := by
      simp [Members.ofList, List.foldl_append]
    rw [hinsert, Members.find?_insert, ih, List.reverse_append, List.reverse_singleton, List.singleton_append]
    by_cases hname : name = key
    · simp [hname]
    · rw [if_neg hname, Members.lookup_cons_of_ne hname]

namespace Heap

/-! ## Growth -/

/-- Arrays and objects stay as they are, and others may be added. -/
structure Grows (h h' : Heap) : Prop where
  arrays : ∀ {i : Nat} {x : Array Value}, h.arrays[i]? = some x → h'.arrays[i]? = some x
  objects : ∀ {i : Nat} {x : Object}, h.objects[i]? = some x → h'.objects[i]? = some x

section
variable {h h' h'' : Heap}

theorem Grows.refl (h : Heap) : Grows h h := ⟨id, id⟩

theorem Grows.trans (h₁ : Grows h h') (h₂ : Grows h' h'') : Grows h h'' :=
  ⟨fun hx => h₂.arrays (h₁.arrays hx), fun hx => h₂.objects (h₁.objects hx)⟩

theorem Grows.elements (hg : Grows h h') {r : ArrayRef} {xs : Array Value} (hr : h.arrays[r.index]? = some xs) :
    h'.elements r = xs := by
  simp [Heap.elements, Array.getD_eq_getD_getElem?, hg.arrays hr]

theorem Grows.object (hg : Grows h h') {r : ObjectRef} {o : Object} (hr : h.objects[r.index]? = some o) :
    h'.object r = o := by
  simp [Heap.object, Array.getD_eq_getD_getElem?, hg.objects hr]

theorem grows_newArray (h : Heap) (elements : List Value) : h.Grows (h.newArray elements).2 := by
  refine ⟨fun {i x} hx => ?_, id⟩
  have hi : i < h.arrays.size := (Array.getElem?_eq_some_iff.mp hx).1
  simp only [newArray, Array.getElem?_push, Nat.ne_of_lt hi, if_false, hx]

theorem grows_newObject (h : Heap) (properties : Members Value) (proto : Option ObjectRef) :
    h.Grows (h.newObject properties proto).2 := by
  refine ⟨id, fun {i x} hx => ?_⟩
  have hi : i < h.objects.size := (Array.getElem?_eq_some_iff.mp hx).1
  simp only [newObject, Array.getElem?_push, Nat.ne_of_lt hi, if_false, hx]

end

mutual

theorem grows_ofJson (h : Heap) : ∀ j, h.Grows (h.ofJson j).2
  | .null | .bool _ | .number _ | .string _ => .refl h
  | .array elements => (h.grows_ofJsonList elements).trans (grows_newArray _ _)
  | .object members => (h.grows_ofJsonMembers members).trans (grows_newObject _ _ none)

theorem grows_ofJsonList (h : Heap) : ∀ elements, h.Grows (h.ofJsonList elements).2
  | [] => .refl h
  | x :: rest => (h.grows_ofJson x).trans (grows_ofJsonList _ rest)

theorem grows_ofJsonMembers (h : Heap) : ∀ members, h.Grows (h.ofJsonMembers members).2
  | [] => .refl h
  | (_, x) :: rest => (h.grows_ofJson x).trans (grows_ofJsonMembers _ rest)

end

/-! ## What a value denotes -/

def Has (h : Heap) : Value → Prop
  | .array r => ∃ xs, h.arrays[r.index]? = some xs
  | .object r => ∃ o, h.objects[r.index]? = some o
  | _ => False

theorem Grows.has {h h' : Heap} (hg : Grows h h') {v : Value} (hv : h.Has v) : h'.Has v := by
  cases v with
  | array r => exact hv.imp fun _ => hg.arrays
  | object r => exact hv.imp fun _ => hg.objects
  | _ => exact hv

/-- The value is the JSON value, and all that it is made of was there when the heap was `top`. -/
def Denotes (h top : Heap) (j : Json) (v : Value) : Prop :=
  ∃ h₀ : Heap, (h₀.ofJson j).1 = v ∧ (h₀.ofJson j).2.Grows top ∧ top.Grows h

section
variable {h top : Heap} {v : Value}

theorem denotes_each {h₀ : Heap} {elements : List Json} (htop : (h₀.ofJsonList elements).2.Grows top)
    (hh : top.Grows h) : List.Forall₂ (h.Denotes top) elements (h₀.ofJsonList elements).1 := by
  induction elements generalizing h₀ with
  | nil => exact .nil
  | cons x rest ih => exact .cons ⟨h₀, rfl, (grows_ofJsonList _ rest).trans htop, hh⟩ (ih htop)

theorem denotes_members {h₀ : Heap} {members : List (String × Json)} (htop : (h₀.ofJsonMembers members).2.Grows top)
    (hh : top.Grows h) :
    List.Forall₂ (fun m p => m.1 = p.1 ∧ h.Denotes top m.2 p.2) members (h₀.ofJsonMembers members).1 := by
  induction members generalizing h₀ with
  | nil => exact .nil
  | cons m rest ih =>
    exact .cons ⟨rfl, h₀, rfl, (grows_ofJsonMembers _ rest).trans htop, hh⟩ (ih htop)

theorem Denotes.array {elements : List Json} (hv : h.Denotes top (.array elements) v) :
    ∃ r inner, v = .array r ∧ top.Has v ∧ ¬ inner.Has v ∧ inner.Grows top ∧
      List.Forall₂ (h.Denotes inner) elements (h.elements r).toList := by
  obtain ⟨h₀, rfl, htop, hh⟩ := hv
  have hgrows := (grows_newArray (h₀.ofJsonList elements).2 (h₀.ofJsonList elements).1).trans htop
  have hnew := htop.arrays (i := (h₀.ofJsonList elements).2.arrays.size)
    (x := (h₀.ofJsonList elements).1.toArray) (by simp [ofJson, newArray])
  refine ⟨⟨(h₀.ofJsonList elements).2.arrays.size⟩, (h₀.ofJsonList elements).2, rfl, ⟨_, hnew⟩, ?_, hgrows, ?_⟩
  · simp [Has, ofJson, newArray]
  · have helements := hh.elements (r := ⟨(h₀.ofJsonList elements).2.arrays.size⟩) hnew
    rw [helements, List.toList_toArray]
    exact denotes_each (.refl _) (hgrows.trans hh)

theorem Denotes.object {members : List (String × Json)} (hv : h.Denotes top (.object members) v) :
    ∃ r inner ps, v = .object r ∧ top.Has v ∧ ¬ inner.Has v ∧ inner.Grows top ∧
      h.object r = { properties := .ofList ps } ∧
      List.Forall₂ (fun m p => m.1 = p.1 ∧ h.Denotes inner m.2 p.2) members ps := by
  obtain ⟨h₀, rfl, htop, hh⟩ := hv
  have hgrows := (grows_newObject (h₀.ofJsonMembers members).2 (.ofList (h₀.ofJsonMembers members).1) none).trans htop
  have hnew := htop.objects (i := (h₀.ofJsonMembers members).2.objects.size)
    (x := { properties := .ofList (h₀.ofJsonMembers members).1 }) (by simp [ofJson, newObject])
  refine ⟨⟨(h₀.ofJsonMembers members).2.objects.size⟩, (h₀.ofJsonMembers members).2, (h₀.ofJsonMembers members).1,
    rfl, ⟨_, hnew⟩, ?_, hgrows, hh.object hnew, denotes_members (.refl _) (hgrows.trans hh)⟩
  simp [Has, ofJson, newObject]

end

end Heap

end TypeContracts
