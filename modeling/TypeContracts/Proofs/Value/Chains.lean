import Mathlib.Data.Finset.Card
import Mathlib.Data.List.Nodup
import TypeContracts.Value.Text

/-!
# Prototype chains

An object inherits along its prototypes. The text of an object lists what it
has and inherits by merging lists of entries; the merged list has, for each name,
the entry of the nearest holder of the name (`listedEntries_eq`, `mem_unshadowed`).
-/

namespace TypeContracts.Heap

/-! ## Prototype chains -/

/-- The prototypes from `start` on, nearest first, up to one that has none. -/
inductive IsChain (h : Heap) : Option ObjectRef → List ObjectRef → Prop
  | nil : IsChain h none []
  | cons {r refs} : IsChain h (h.object r).proto refs → IsChain h (some r) (r :: refs)

section
variable {h : Heap} {start : Option ObjectRef} {refs : List ObjectRef}

theorem IsChain.unique {refs' : List ObjectRef} (hc : h.IsChain start refs) (hc' : h.IsChain start refs') :
    refs = refs' := by
  induction hc generalizing refs' with
  | nil =>
    cases hc'
    rfl
  | cons _ ih =>
    cases hc' with
    | cons hc' => rw [ih hc']

theorem IsChain.from_mem {r : ObjectRef} (hc : h.IsChain start refs) (hr : r ∈ refs) :
    ∃ rest, h.IsChain (some r) (r :: rest) ∧ rest.length < refs.length := by
  induction hc with
  | nil => cases hr
  | @cons r' refs hc ih =>
    obtain rfl | hr := List.mem_cons.mp hr
    · exact ⟨refs, .cons hc, by simp⟩
    · obtain ⟨rest, hrest, hlt⟩ := ih hr
      exact ⟨rest, hrest, by simp; omega⟩

/-- A prototype that came again would start a chain without end. -/
theorem IsChain.nodup (hc : h.IsChain start refs) : refs.Nodup := by
  induction hc with
  | nil => exact List.nodup_nil
  | @cons r refs hc ih =>
    refine List.nodup_cons.mpr ⟨fun hr => ?_, ih⟩
    obtain ⟨rest, hrest, hlt⟩ := hc.from_mem hr
    have heq := hrest.unique (.cons hc)
    simp_all

theorem object_of_size_le {r : ObjectRef} (hr : h.objects.size ≤ r.index) : h.object r = default := by
  rw [object, Array.getD_eq_getD_getElem?, Array.getElem?_eq_none hr, Option.getD_none]

theorem lt_size_of_proto {r : ObjectRef} (hproto : (h.object r).proto ≠ none) : r.index < h.objects.size := by
  by_contra hr
  rw [object_of_size_le (Nat.not_lt.mp hr)] at hproto
  exact hproto rfl

/-- Only the last one may be missing from the heap. -/
theorem IsChain.length_le (hc : h.IsChain start refs) : refs.length ≤ h.objects.size + 1 := by
  have hrange : ∀ i ∈ (refs.map ObjectRef.index).dropLast, i < h.objects.size := by
    induction hc with
    | nil => simp
    | @cons r refs hc ih =>
      cases hc' : refs with
      | nil => simp
      | cons r' rest =>
        subst hc'
        rw [List.map_cons, List.map_cons, List.dropLast_cons_of_ne_nil (by simp)]
        refine List.forall_mem_cons.mpr ⟨?_, ih⟩
        have hproto : (h.object r).proto ≠ none := by
          intro hnone
          rw [hnone] at hc
          cases hc
        exact lt_size_of_proto hproto
  have hnodup : (refs.map ObjectRef.index).Nodup := hc.nodup.map fun a b hab => by
    cases a
    cases b
    cases hab
    rfl
  have hsub : ((refs.map ObjectRef.index).dropLast).toFinset ⊆ Finset.range h.objects.size := by
    intro i hi
    exact Finset.mem_range.mpr (hrange i (List.mem_toFinset.mp hi))
  have hcard := Finset.card_le_card hsub
  rw [List.toFinset_card_of_nodup (hnodup.sublist (List.dropLast_sublist _)), Finset.card_range, List.length_dropLast,
    List.length_map] at hcard
  omega

theorem chainWithin_eq (hc : h.IsChain start refs) {budget : Nat} (hbudget : refs.length ≤ budget) :
    h.chainWithin budget start = refs.map h.object := by
  induction hc generalizing budget with
  | nil => cases budget <;> rfl
  | cons _ ih =>
    cases budget with
    | zero => cases hbudget
    | succ budget => rw [chainWithin, ih (by simpa using hbudget), List.map_cons]

theorem chain_eq (hc : h.IsChain start refs) : h.chain start = refs.map h.object := chainWithin_eq hc hc.length_le

end

/-! ## The list -/

/-- The entries of the holders under names that are neither hidden nor those of an earlier holder. -/
def unshadowed (hidden : List String) : List (Members Value) → List (String × Value)
  | [] => []
  | m :: rest => m.toList.filter (fun entry => entry.1 ∉ hidden) ++ unshadowed (hidden ++ m.names) rest

theorem foldl_unlisted (entries : List (String × Value)) {l : List (String × Value)} (hnodup : (l.map Prod.fst).Nodup) :
    l.foldl (fun entries entry => if entries.any fun listed => listed.1 == entry.1 then entries else entries ++ [entry])
      entries = entries ++ l.filter fun entry => entry.1 ∉ entries.map Prod.fst := by
  induction l generalizing entries with
  | nil => simp
  | cons entry l ih =>
    rw [List.map_cons, List.nodup_cons] at hnodup
    rw [List.foldl_cons, List.filter_cons]
    by_cases hlisted : entry.1 ∈ entries.map Prod.fst
    · have hany : (entries.any fun listed => listed.1 == entry.1) = true := by simpa using hlisted
      rw [if_pos hany, ih entries hnodup.2, if_neg (by simpa using hlisted)]
    · have hany : ¬ (entries.any fun listed => listed.1 == entry.1) = true := by simpa using hlisted
      have hfilter : (l.filter fun other => other.1 ∉ (entries ++ [entry]).map Prod.fst) =
          l.filter fun other => other.1 ∉ entries.map Prod.fst := by
        refine List.filter_congr fun other hother => ?_
        have hne : other.1 ≠ entry.1 := fun heq => hnodup.1 (heq ▸ List.mem_map_of_mem hother)
        simp [hne]
      rw [if_neg hany, ih _ hnodup.2, hfilter, if_pos (by simpa using hlisted), List.append_assoc,
        List.singleton_append]

theorem appendUnlisted_eq (entries : List (String × Value)) (o : Object) :
    appendUnlisted entries o = entries ++ o.properties.toList.filter fun entry => entry.1 ∉ entries.map Prod.fst :=
  foldl_unlisted entries o.properties.nodup

theorem foldl_appendUnlisted {entries : List (String × Value)} {hidden : List String}
    (hhidden : ∀ key, key ∈ entries.map Prod.fst ↔ key ∈ hidden) (chain : List Object) :
    chain.foldl appendUnlisted entries = entries ++ unshadowed hidden (chain.map Object.properties) := by
  induction chain generalizing entries hidden with
  | nil => simp [unshadowed]
  | cons o chain ih =>
    have hfilter : (o.properties.toList.filter fun entry => entry.1 ∉ entries.map Prod.fst) =
        o.properties.toList.filter fun entry => entry.1 ∉ hidden := by
      simp only [hhidden]
    have hnext : ∀ key, key ∈ (appendUnlisted entries o).map Prod.fst ↔ key ∈ hidden ++ o.properties.names := by
      intro key
      rw [appendUnlisted_eq, hfilter, List.map_append, List.mem_append, List.mem_append, hhidden]
      by_cases hkey : key ∈ hidden <;> simp [hkey, Members.names]
    rw [List.foldl_cons, ih hnext, appendUnlisted_eq, hfilter, List.append_assoc]
    rfl

section
variable {hidden : List String} {holders : List (Members Value)}

theorem mem_unshadowed {key : String} {x : Value} :
    (key, x) ∈ unshadowed hidden holders ↔ key ∉ hidden ∧ holders.findSome? (·.find? key) = some x := by
  induction holders generalizing hidden with
  | nil => simp [unshadowed]
  | cons m rest ih =>
    rw [unshadowed, List.mem_append, ih, List.mem_filter, ← Members.find?_eq_some_iff, List.findSome?_cons,
      List.mem_append, ← Members.contains_iff, Members.contains]
    cases m.find? key <;> simp [and_comm]

theorem nodup_unshadowed : ((unshadowed hidden holders).map Prod.fst).Nodup := by
  induction holders generalizing hidden with
  | nil => exact List.nodup_nil
  | cons m rest ih =>
    rw [unshadowed, List.map_append]
    refine List.nodup_append.mpr ⟨m.nodup.sublist (List.filter_sublist.map _), ih, fun key hm key' hrest heq => ?_⟩
    subst heq
    obtain ⟨entry, hentry, rfl⟩ := List.mem_map.mp hm
    obtain ⟨other, hother, heq⟩ := List.mem_map.mp hrest
    have hnew := (mem_unshadowed.mp (show (other.1, other.2) ∈ _ from hother)).1
    exact hnew (heq ▸ List.mem_append_right _ (List.mem_map_of_mem (List.mem_filter.mp hentry).1))

end

/-- The own members of an object and those of its prototypes, nearest first. -/
def holders (h : Heap) (r : ObjectRef) : List (Members Value) :=
  (h.object r).properties :: (h.chain (h.object r).proto).map Object.properties

theorem holders_eq {h : Heap} {r : ObjectRef} {refs : List ObjectRef} (hc : h.IsChain (h.object r).proto refs) :
    h.holders r = (h.object r).properties :: refs.map fun p => (h.object p).properties := by
  rw [holders, chain_eq hc, List.map_map]
  rfl

theorem listedEntries_eq (h : Heap) (r : ObjectRef) : h.listedEntries r = unshadowed [] (h.holders r) := by
  have hown : ∀ key, key ∈ (h.object r).properties.toList.map Prod.fst ↔ key ∈ (h.object r).properties.names :=
    fun _ => Iff.rfl
  rw [listedEntries, foldl_appendUnlisted hown, holders, unshadowed]
  simp

end TypeContracts.Heap
