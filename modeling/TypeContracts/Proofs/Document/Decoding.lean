import Mathlib.Order.RelIso.Basic
import TypeContracts.Proofs.Document.Budget
import TypeContracts.Proofs.Document.Defining

/-!
# Decoding documents

Decoding succeeds on the well-formed documents and no others, and what it gives
is the document again, with a descriptor for each entry (`Faithful`).
-/

namespace TypeContracts

theorem TypeTable.mem_iff (table : TypeTable) {t : TypeRef} : t ∈ table.types ↔ ∃ i, table.get? i = some t :=
  Array.mem_iff_getElem?

namespace Document

open Relation (TransGen)

/-! ## The table -/

/-- The table holds a new descriptor for each entry, which is what the entry states. -/
structure Faithful (d : Document) (c : Catalog) (table : TypeTable) (c' : Catalog) : Prop where
  grows : c.Grows c'
  size : table.size = d.types.size
  own : ∀ {i t}, table.get? i = some t → c.types.size ≤ t.index ∧ t.index < c'.types.size
  inj : ∀ {i j t}, table.get? i = some t → table.get? j = some t → i = j
  represented : ∀ {i t e}, table.get? i = some t → d.types[i]? = some e →
    Represents table.get? (Defined c' table.get?) e (c'.get t)
  ordered : ∀ {i j t u}, d.Holds i j → table.get? i = some t → table.get? j = some u → u.index < t.index
  root : table.get? d.root.toNat = some table.root

section
variable {d : Document} {c : Catalog}

theorem collect_leads {s : Decoder} {F : Failure → Prop} (h : ∀ i < s.slots.size, ∃ t, s.type? i = some t) :
    Leads collect s (fun types s' => s' = s ∧ types.size = s.slots.size ∧ ∀ i : Nat, types[i]? = s.type? i) F := by
  have hbuilt : ∀ slot ∈ s.slots.toList, ∃ t, slot = .built t := by
    intro slot hslot
    obtain ⟨i, hi, rfl⟩ := List.getElem_of_mem hslot
    have hlt : i < s.slots.size := by simpa using hi
    obtain ⟨t, ht⟩ := h i hlt
    rw [Decoder.type?_eq_some_iff, Array.getElem?_eq_getElem hlt] at ht
    exact ⟨t, by simpa using ht⟩
  refine Leads.bind (P := fun r s' => s = r ∧ s = s') ⟨rfl, rfl⟩ ?_
  rintro _ _ ⟨rfl, rfl⟩
  refine (Leads.mapM_same (Q := fun slot t => slot = .built t) fun slot hslot => ?_).bind ?_
  · obtain ⟨t, rfl⟩ := hbuilt slot hslot
    exact ⟨rfl, rfl⟩
  rintro ts s' ⟨hs', hts⟩
  refine ⟨hs', ?_, fun i => ?_⟩
  · simpa using hts.length_eq.symm
  · have hslots : s.slots.toList = ts.map .built := by
      rw [← List.forall₂_eq_eq_eq, List.forall₂_map_right_iff]
      exact hts
    have hslot : s.slots[i]? = ts[i]?.map .built := by
      rw [← Array.getElem?_toList, hslots, List.getElem?_map]
    unfold Decoder.type?
    rw [hslot, List.getElem?_toArray]
    cases ts[i]? <;> rfl

theorem decodeWithin_leads {budget : Nat} (hbudget : d.types.size < budget) (c : Catalog) :
    Leads (d.decodeWithin budget) (initial d c) (fun table s => Faithful d c table s.catalog) d.Blames := by
  unfold decodeWithin
  -- each pass starts from what the one before has established
  refine (inRange_leads .root (initial d c)).bind ?_
  rintro _ _ ⟨rfl, rfl, hroot⟩
  refine declareAll_leads.bind fun _ s hs => ?_
  refine (buildAll_leads hbudget hs).bind fun _ s₀ hs₀ => ?_
  refine (defineAll_leads (Nat.lt_of_le_of_lt (Nat.zero_le _) hbudget) hs₀).bind fun _ s₁ hs₁ => ?_
  have htype : s₁.type? = s₀.type? := by
    unfold Decoder.type?
    rw [hs₁.slots]
  have hsize : s₁.slots.size = d.types.size := by rw [hs₁.slots, hs₀.size]
  refine (collect_leads fun i hi => htype ▸ hs₀.built i (hsize ▸ hi)).bind ?_
  rintro types s₁ ⟨rfl, htypes, hget⟩
  have htable : ∀ root, TypeTable.get? { types, root } = s₀.type? := by
    intro root
    funext i
    rw [← htype, ← hget]
    rfl
  refine ⟨hs₁.grows, htypes.trans hsize, ?_, ?_, ?_, ?_, ?_⟩
  · intro i t ht
    rw [htable] at ht
    exact ⟨(hs₀.own ht).1, hs₁.size ▸ (hs₀.own ht).2⟩
  · rw [htable]
    exact hs₀.inj
  · rw [htable]
    intro i t e ht he
    exact hs₁.defined (Array.getElem?_eq_some_iff.mp he).1 ht he
  · rw [htable]
    exact hs₀.ordered
  · obtain ⟨t, ht⟩ := hs₀.built _ hroot
    have hat : types[d.root.toNat]? = some t := by rw [hget, htype, ht]
    rw [htable, ht, Array.getD_eq_getD_getElem?, hat]
    rfl

theorem decode_eq (d : Document) (c : Catalog) :
    d.decode c = match d.decodeWithin (d.types.size + 1) (initial d c) with
      | .ok table s => .ok (table, s.catalog)
      | .error e _ => .error e := rfl

theorem decode_cases (d : Document) (c : Catalog) :
    match d.decode c with
    | .ok (table, c') => Faithful d c table c'
    | .error e => d.Blames e := by
  have hled := decodeWithin_leads (Nat.lt_succ_self d.types.size) c
  rw [decode_eq]
  cases hrun : d.decodeWithin (d.types.size + 1) (initial d c) with
  | ok table s => exact hled.ok hrun
  | error e s => exact hled.error hrun

theorem faithful_of_decode {table : TypeTable} {c' : Catalog} (h : d.decode c = .ok (table, c')) :
    Faithful d c table c' := by
  have hcases := decode_cases d c
  rw [h] at hcases
  exact hcases

theorem blames_of_decode {e : Failure} (h : d.decode c = .error e) : d.Blames e := by
  have hcases := decode_cases d c
  rw [h] at hcases
  exact hcases

end

/-! ## What is accepted -/

namespace Faithful

variable {d : Document} {c c' : Catalog} {table : TypeTable} (h : Faithful d c table c')
include h

theorem exists_get? {i : Nat} (hi : i < d.types.size) : ∃ t, table.get? i = some t := by
  rw [← h.size] at hi
  exact ⟨_, Array.getElem?_eq_getElem hi⟩

theorem lt_of_get? {i : Nat} {t : TypeRef} (ht : table.get? i = some t) : i < d.types.size :=
  h.size ▸ (Array.getElem?_eq_some_iff.mp ht).1

theorem entry {i : Nat} {t : TypeRef} (ht : table.get? i = some t) :
    ∃ e, d.types[i]? = some e ∧ Represents table.get? (Defined c' table.get?) e (c'.get t) := by
  have he := Array.getElem?_eq_getElem (h.lt_of_get? ht)
  exact ⟨_, he, h.represented ht he⟩

/-- The types that a descriptor mentions are those that the references of its entry stand for. -/
theorem mem_mentioned_iff {i : Nat} {t u : TypeRef} (ht : table.get? i = some t) :
    u ∈ c'.mentioned t ↔ ∃ j, d.Refers i j ∧ table.get? j = some u := by
  obtain ⟨e, he, hrep⟩ := h.entry ht
  rw [mem_iff_of_names hrep.names]
  constructor
  · rintro ⟨r, hr, hu⟩
    exact ⟨r.toNat, ⟨e, he, r, hr, rfl⟩, hu⟩
  · rintro ⟨j, ⟨e', he', r, hr, rfl⟩, hu⟩
    rw [he] at he'
    cases he'
    exact ⟨r, hr, hu⟩

theorem refs_known {i j : Nat} (hij : d.Refers i j) : j < d.types.size := by
  obtain ⟨e, he, r, hr, rfl⟩ := hij
  obtain ⟨t, ht⟩ := h.exists_get? (Array.getElem?_eq_some_iff.mp he).1
  obtain ⟨u, -, hu⟩ := exists_of_forall₂ (h.represented ht he).names hr
  exact h.lt_of_get? hu

/-- Descriptors come after those that they hold. -/
theorem index_lt {i j : Nat} (hij : TransGen d.Holds i j) {t u : TypeRef} (ht : table.get? i = some t)
    (hu : table.get? j = some u) : u.index < t.index := by
  induction hij generalizing u with
  | single hij => exact h.ordered hij ht hu
  | tail _ hjk ih =>
    obtain ⟨⟨e, he, -⟩, -⟩ := id hjk
    obtain ⟨v, hv⟩ := h.exists_get? (Array.getElem?_eq_some_iff.mp he).1
    exact Nat.lt_trans (h.ordered hjk hv hu) (ih hv)

theorem acyclic (i : Nat) : ¬ TransGen d.Holds i i := by
  intro hcycle
  -- a descriptor on a cycle would come after itself
  obtain ⟨j, ⟨-, -, hij⟩, -⟩ := TransGen.head'_iff.mp hcycle
  obtain ⟨e, he, -⟩ := hij
  obtain ⟨t, ht⟩ := h.exists_get? (Array.getElem?_eq_some_iff.mp he).1
  exact Nat.lt_irrefl _ (h.index_lt hcycle ht ht)

theorem arity {o : ObjectEntry} (ho : .objectType o ∈ d.types) {x : SignatureEntry} (hx : x ∈ o.signatures) :
    ∀ k ∈ x.mandatoryArgs, k.toNat ≤ x.args.length := by
  obtain ⟨i, hi⟩ := Array.getElem?_of_mem ho
  obtain ⟨t, ht⟩ := h.exists_get? (Array.getElem?_eq_some_iff.mp hi).1
  have hrep := h.represented ht hi
  generalize c'.get t = descriptor at hrep
  cases hrep with
  | object hs =>
    obtain ⟨shape, -, hshape⟩ := hs
    obtain ⟨y, hy⟩ := hshape.signature hx
    exact hy.arity

theorem wellFormed : d.WellFormed where
  root := h.lt_of_get? h.root
  refs _ _ := h.refs_known
  acyclic := h.acyclic
  arity _ ho _ := h.arity ho

/-! ## What is given -/

theorem nodup : table.types.toList.Nodup := by
  rw [List.nodup_iff_injective_getElem]
  intro i j hij
  have hget : ∀ k : Fin table.types.toList.length, table.get? k = some table.types.toList[k] := by
    intro k
    simp [TypeTable.get?]
  exact Fin.ext (h.inj (hget i) ((hget j).trans (congrArg some hij.symm)))

/-- The descriptors mention each other as the entries refer to each other. -/
theorem graph : ∃ f : (fun i j : Fin d.types.size => d.Refers i j) ≃r
    (fun t u : { t // t ∈ table.types } => u.1 ∈ c'.mentioned t.1),
      ∀ i : Fin d.types.size, table.get? i = some (f i).1 := by
  have hget : ∀ i : Fin d.types.size, ∃ t : { t // t ∈ table.types }, table.get? i = some t.1 := by
    intro i
    obtain ⟨t, ht⟩ := h.exists_get? i.isLt
    exact ⟨⟨t, table.mem_iff.mpr ⟨i, ht⟩⟩, ht⟩
  choose f hf using hget
  have hbijective : Function.Bijective f := by
    constructor
    · intro i j hij
      exact Fin.ext (h.inj (hf i) (hij ▸ hf j))
    · rintro ⟨t, ht⟩
      obtain ⟨i, hi⟩ := table.mem_iff.mp ht
      refine ⟨⟨i, h.lt_of_get? hi⟩, Subtype.ext ?_⟩
      exact Option.some.inj ((hf ⟨i, h.lt_of_get? hi⟩).symm.trans hi)
  refine ⟨⟨Equiv.ofBijective f hbijective, ?_⟩, hf⟩
  intro i j
  show (f j).1 ∈ c'.mentioned (f i).1 ↔ d.Refers i j
  rw [h.mem_mentioned_iff (hf i)]
  constructor
  · rintro ⟨k, hk, hu⟩
    rwa [h.inj (hf j) hu]
  · intro hij
    exact ⟨j, hij, hf j⟩

end Faithful

theorem Fault.not_internal {d : Document} {m : Malformation} (h : d.Fault m) :
    m ≠ .definedTwice ∧ m ≠ .unresolved ∧ ∀ i, m ≠ .unbuilt i ∧ m ≠ .undeclaredObject i := by
  cases h <;> simp

/-- Decoding accepts exactly the well-formed documents. When it does not, the failure reports what is wrong with
the document, and is never one of those that guard the decoder against itself. The recursion ends by itself: any
budget above the number of entries gives the same run. -/
theorem decode_accepts (d : Document) (c : Catalog) :
    ((∃ table c', d.decode c = .ok (table, c')) ↔ d.WellFormed) ∧
    (∀ e, d.decode c = .error e → ∃ m, e = .malformed m ∧ d.Fault m ∧
      m ≠ .definedTwice ∧ m ≠ .unresolved ∧ ∀ i, m ≠ .unbuilt i ∧ m ≠ .undeclaredObject i) ∧
    ∀ budget, d.types.size < budget →
      d.decodeWithin (d.types.size + 1) (initial d c) = d.decodeWithin budget (initial d c) := by
  refine ⟨⟨?_, fun hd => ?_⟩, fun e he => ?_, fun budget hbudget => decodeWithin_budget hbudget c⟩
  · rintro ⟨table, c', h⟩
    exact (faithful_of_decode h).wellFormed
  · cases hrun : d.decode c with
    | ok r => exact ⟨r.1, r.2, rfl⟩
    | error e =>
      obtain ⟨m, -, hm⟩ := blames_of_decode hrun
      exact absurd hd hm.not_wellFormed
  · obtain ⟨m, rfl, hm⟩ := blames_of_decode he
    exact ⟨m, rfl, hm, hm.not_internal⟩

theorem decode_accepts_cycles : ¬ Document.WellFormed ⟨#[.union [1] none, .intersection [0, 0] none], 0⟩ ∧
    Document.WellFormed
      ⟨#[.union [1] none, .objectType ⟨none, .ofList [("next", ⟨0, false⟩)], [], [], none, none⟩], 0⟩ := by
  constructor
  · intro h
    obtain ⟨table, c', hrun⟩ := (decode_accepts _ {}).1.mpr h
    exact nomatch hrun
  · exact (decode_accepts _ {}).1.mp ⟨_, _, rfl⟩

def numberLists : Document where
  types := #[
    .union [2, 1] (some "List"),
    .null,
    .objectType {
      name := some "Node"
      properties := .ofList [("value", ⟨3, false⟩), ("next", ⟨0, true⟩)]
      callSignatures := [⟨[0, 3], some 1, some 3, 2⟩]
      constructSignatures := []
      numericIndexType := none
      stringIndexType := some 0 },
    .numeric]
  root := 0

/-- Every entry has one descriptor of its own, which states what the entry states, with the descriptors themselves in
the place of references. So the graph of descriptors is that of the entries, and nothing else can be reached from it. -/
theorem decode_faithful {d : Document} {c c' : Catalog} {table : TypeTable} (h : d.decode c = .ok (table, c')) :
    table.size = d.types.size ∧ table.types.toList.Nodup ∧ (∀ t ∈ table.types, c.types.size ≤ t.index) ∧
    (∀ (i : Nat) e, d.types[i]? = some e →
      ∃ t, table.get? i = some t ∧ Represents table.get? (Defined c' table.get?) e (c'.get t)) ∧
    (∃ f : (fun i j : Fin d.types.size => d.Refers i j) ≃r
      (fun t u : { t // t ∈ table.types } => u.1 ∈ c'.mentioned t.1),
        ∀ i : Fin d.types.size, table.get? i = some (f i).1) ∧
    (∀ t ∈ table.types, ∀ u ∈ c'.mentioned t, u ∈ table.types) ∧
    table.get? d.root.toNat = some table.root := by
  have hf := faithful_of_decode h
  refine ⟨hf.size, hf.nodup, ?_, ?_, hf.graph, ?_, hf.root⟩
  · intro t ht
    obtain ⟨i, hi⟩ := table.mem_iff.mp ht
    exact (hf.own hi).1
  · intro i e he
    obtain ⟨t, ht⟩ := hf.exists_get? (Array.getElem?_eq_some_iff.mp he).1
    exact ⟨t, ht, hf.represented ht he⟩
  · intro t ht u hu
    obtain ⟨i, hi⟩ := table.mem_iff.mp ht
    obtain ⟨j, -, hj⟩ := (hf.mem_mentioned_iff hi).mp hu
    exact table.mem_iff.mpr ⟨j, hj⟩

theorem decode_faithful_numberLists : ∃ table c', numberLists.decode {} = .ok (table, c') ∧
    table.types = #[⟨2⟩, ⟨1⟩, ⟨0⟩, ⟨3⟩] ∧ table.types.toList.Nodup ∧
    (∀ (i : Nat) e, numberLists.types[i]? = some e →
      ∃ t, table.get? i = some t ∧ Represents table.get? (Defined c' table.get?) e (c'.get t)) ∧
    table.get? 0 = some table.root := by
  obtain ⟨table, c', h, htypes⟩ : ∃ table c', numberLists.decode {} = .ok (table, c') ∧
      table.types = #[⟨2⟩, ⟨1⟩, ⟨0⟩, ⟨3⟩] := ⟨_, _, rfl, rfl⟩
  obtain ⟨-, hnodup, -, hrepresented, -, -, hroot⟩ := decode_faithful h
  exact ⟨table, c', h, htypes, hnodup, hrepresented, hroot⟩

end Document

end TypeContracts
