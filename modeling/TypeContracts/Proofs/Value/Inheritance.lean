import TypeContracts.Proofs.Value.Formatting

/-!
# What a value inherits

The properties of a value are found by a map that is filled along its prototype
chain, and the text of an object lists entries that are collected along the same
chain. Both give, for each name, what the nearest holder of the name has.
-/

namespace TypeContracts.Heap

/-! ## The map -/

theorem find?_inherit (own : Members Value) (chain : List Object) (key : String) :
    (inherit own chain).find? key = (own :: chain.map Object.properties).findSome? (·.find? key) := by
  induction chain generalizing own with
  | nil => simp [inherit]
  | cons o chain ih =>
    have hstep : inherit own (o :: chain) = inherit (own.union o.properties) chain := rfl
    rw [hstep, ih, List.findSome?_cons, Members.find?_union, List.map_cons, List.findSome?_cons, List.findSome?_cons]
    cases own.find? key <;> rfl

/-! ## Three views -/

def own? (h : Heap) : Value → Option (Members Value × Option ObjectRef)
  | .object r => some ((h.object r).properties, (h.object r).proto)
  | .function r => some ((h.function r).properties, (h.function r).proto)
  | _ => none

section
variable {h : Heap} {v : Value} {own : Members Value} {start : Option ObjectRef} {refs : List ObjectRef}

theorem get?_properties (hv : h.own? v = some (own, start)) (hchain : h.IsChain start refs) (key : String) :
    (h.properties v).get? key =
      (own :: refs.map fun p => (h.object p).properties).findSome? (·.find? key) := by
  have hget : (h.properties v).get? key = (inherit own (h.chain start)).find? key := by
    cases v with
    | object r | function r =>
      cases hv
      rfl
    | _ => cases hv
  rw [hget, find?_inherit, chain_eq hchain, List.map_map]
  rfl

/-- Where a name is found, whether there is one, and what the text of an object lists all go by the nearest holder of a
name: the value itself, or else the first prototype of the chain that has it. -/
theorem inheritance_views_agree (hv : h.own? v = some (own, start)) (hchain : h.IsChain start refs) :
    let holders := own :: refs.map fun p => (h.object p).properties
    let entries := unshadowed [] holders
    (∀ key x, (h.properties v).get? key = some x ↔ ∃ before m after, holders = before ++ m :: after ∧
      (key, x) ∈ m.toList ∧ ∀ n ∈ before, key ∉ n.names) ∧
    (∀ key, (h.properties v).get? key = none ↔ ∀ m ∈ holders, key ∉ m.names) ∧
    (∀ key, h.has v key = true ↔ ∃ m ∈ holders, key ∈ m.names) ∧
    (entries.map Prod.fst).Nodup ∧ (∀ key x, (key, x) ∈ entries ↔ (h.properties v).get? key = some x) ∧
    ∀ r, v = .object r → ∀ c budget level seen, (markSeen v seen).1 = false →
      let values := ((entries.map Prod.snd).mapM (h.valueTextWithin c budget (level + 1))).run (markSeen v seen).2
      (h.valueTextWithin c (budget + 1) level v).run seen =
        (objectText level ((entries.map Prod.fst).zip values.1), values.2) := by
  intro holders entries
  have hget := get?_properties hv hchain
  refine ⟨fun key x => ?_, fun key => ?_, fun key => ?_, nodup_unshadowed, fun key x => ?_, ?_⟩
  · rw [hget, List.findSome?_eq_some_iff]
    simp only [Members.find?_eq_some_iff, Members.find?_eq_none_iff, holders]
  · rw [hget, List.findSome?_eq_none_iff]
    simp only [Members.find?_eq_none_iff, holders]
  · rw [has, hget, List.findSome?_isSome_iff]
    simp only [← Members.contains_iff, Members.contains, holders]
  · rw [mem_unshadowed, hget]
    simp [holders]
  · rintro r rfl c budget level seen hseen
    cases hv
    have hrun := run_object h c budget level hseen
    rwa [holders_eq hchain] at hrun

end

def threeLevels : Heap where
  objects := #[
    { properties := .ofList [("x", .undefined), ("a", .null)], proto := some ⟨1⟩ },
    { properties := .ofList [("a", .boolean true), ("b", .string "near")], proto := some ⟨2⟩ },
    { properties := .ofList [("c", .null), ("b", .string "far"), ("x", .null)] }]

theorem inheritance_views_agree_threeLevels :
    threeLevels.IsChain (some ⟨1⟩) [⟨1⟩, ⟨2⟩] ∧ threeLevels.has (.object ⟨0⟩) "x" = true ∧
      (threeLevels.properties (.object ⟨0⟩)).get? "x" = some .undefined ∧
      (threeLevels.properties (.object ⟨0⟩)).get? "b" = some (.string "near") ∧
      (threeLevels.properties (.object ⟨0⟩)).get? "d" = none ∧
      ((threeLevels.valueTextWithin {} 2 0 (.object ⟨0⟩)).run ∅).1 =
        "\x7b\n  x: undefined,\n  a: null,\n  b: 'near',\n  c: null,\n\x7d" := by
  have hchain : threeLevels.IsChain (some ⟨1⟩) [⟨1⟩, ⟨2⟩] := .cons (.cons .nil)
  obtain ⟨hfound, habsent, hhas, -, -, hwritten⟩ := inheritance_views_agree (h := threeLevels) (v := .object ⟨0⟩) rfl hchain
  have hown : (threeLevels.object ⟨0⟩).properties.toList = [("x", .undefined), ("a", .null)] := rfl
  have hnear : (threeLevels.object ⟨1⟩).properties.toList = [("a", .boolean true), ("b", .string "near")] := rfl
  refine ⟨hchain, (hhas "x").mpr ⟨_, List.mem_cons_self, by decide⟩, ?_, ?_, (habsent "d").mpr (by decide), ?_⟩
  · exact (hfound "x" _).mpr ⟨[], _, _, rfl, by simp [hown], by simp⟩
  · exact (hfound "b" _).mpr ⟨[_], _, _, rfl, by simp [hnear], by simp [Members.names, hown]⟩
  · rw [hwritten ⟨0⟩ rfl {} 1 0 ∅ (by decide)]
    decide +kernel

end TypeContracts.Heap
