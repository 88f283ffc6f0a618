import TypeContracts.Proofs.Compatibility.Rules
import TypeContracts.Proofs.Document.Decoding

/-!
# Two copies of a document

A document that is decoded twice gives two tables that share nothing. Still the
rules relate the descriptors of one entry in both directions: what they ask for
is again about two copies (`copies_step`), because they follow the references of
the entry, and the members of a union stand against the whole of it.
-/

namespace TypeContracts

namespace Document

open Compatibility
open Relation (ReflTransGen)

/-- What has been decoded stays as it is. -/
theorem Faithful.later {d : Document} {c₀ c' c : Catalog} {table : TypeTable} (h : Faithful d c₀ table c')
    (hg : c'.Grows c) : Faithful d c₀ table c where
  grows := h.grows.trans hg
  size := h.size
  own ht := ⟨(h.own ht).1, Nat.lt_of_lt_of_le (h.own ht).2 hg.size_le⟩
  inj := h.inj
  represented {i t e} ht he := by
    have hrep := h.represented ht he
    have hget : c.get t = c'.get t := by
      rcases hg.get (h.own ht).2 with hget | ⟨name, shape, hnone, -⟩
      · exact hget
      · -- every object type of the table is defined
        rw [hnone] at hrep
        cases hrep with
        | object hs => obtain ⟨_, hno, -⟩ := hs; cases hno
    rw [hget]
    refine hrep.imp fun o shape _ ⟨s, hs, hshape⟩ => ⟨s, hs, hshape.mono hg.signatures⟩
  ordered := h.ordered
  root := h.root

/-- The document states nothing that has no check, and no number that differs from itself. -/
structure Checkable (d : Document) : Prop where
  parameters : ∀ name, .typeParameter name ∉ d.types
  intersections : ∀ rs name, .intersection rs name ∉ d.types
  numbers : ∀ x, .numericLiteral x ∈ d.types → x.isNaN = false

def UnionMember (d : Document) (i j : Nat) : Prop :=
  ∃ rs name, d.types[i]? = some (.union rs name) ∧ ∃ r ∈ rs, r.toNat = j

/-- Judgments between two tables: an entry, or what is in it as a member of unions, against the same entry, and
signatures against the same signatures. -/
def copies (d : Document) (c : Catalog) (A B : TypeTable) : Set Judgment
  | .type s t => ∃ i k, ReflTransGen d.UnionMember i k ∧ A.get? k = some s ∧ B.get? i = some t
  | .signature x y => ∃ e, SignatureRepresented c A.get? e x ∧ SignatureRepresented c B.get? e y
  | .functionTag .. => False

/-! ## Two lists for the same references -/

section
variable {α β γ : Type} {P : α → β → Prop} {Q : α → γ → Prop} {as : List α} {bs : List β} {cs : List γ}
  (hb : List.Forall₂ P as bs) (hc : List.Forall₂ Q as cs)
include hb hc

theorem exists_of_mem_zip : ∀ p ∈ bs.zip cs, ∃ a, P a p.1 ∧ Q a p.2 := by
  induction hb generalizing cs with
  | nil => simp
  | @cons a b as bs hab _ ih =>
    cases hc with
    | @cons _ c' _ cs hac hcs =>
      intro p hp
      rcases List.mem_cons.mp hp with rfl | hp
      · exact ⟨a, hab, hac⟩
      · exact ih hcs p hp

theorem exists_of_mem_right {c : γ} (hmem : c ∈ cs) : ∃ b ∈ bs, ∃ a, P a b ∧ Q a c := by
  obtain ⟨a, ha, hac⟩ := exists_of_forall₂ (List.Forall₂.flip hc) hmem
  obtain ⟨b, hbs, hab⟩ := exists_of_forall₂ hb ha
  exact ⟨b, hbs, a, hab, hac⟩

theorem exists_of_getElem? {k : Nat} {b : β} {c : γ} (hbk : bs[k]? = some b) (hck : cs[k]? = some c) :
    ∃ a, P a b ∧ Q a c := by
  have hmem : (b, c) ∈ bs.zip cs := List.mem_of_getElem? (List.getElem?_zip_eq_some.mpr ⟨hbk, hck⟩)
  exact exists_of_mem_zip hb hc (b, c) hmem

end

section
variable {d : Document} {c cA cB : Catalog} {A B : TypeTable} {R : Set Judgment} {strict : Bool}

theorem mem_copies_of_names {r : EntryIndex} {s t : TypeRef} (hs : Names A.get? r s) (ht : Names B.get? r t) :
    .type s t ∈ copies d c A B := ⟨_, _, .refl, hs, ht⟩

variable (hAB : copies d c A B ⊆ R) (hBA : copies d c B A ⊆ R)
include hAB

/-! ## Signatures and shapes -/

include hBA in
theorem signatureStep_copy {e : SignatureEntry} {x y : SignatureRef} (hx : SignatureRepresented c A.get? e x)
    (hy : SignatureRepresented c B.get? e y) : SignatureStep R (c.signature x) (c.signature y) := by
  refine ⟨?_, ?_, ?_, ?_⟩
  · rw [hx.mandatory, hy.mandatory]
  · intro p hp
    obtain ⟨r, hr₁, hr₂⟩ := exists_of_mem_zip hx.parameters hy.parameters p hp
    exact .inl (hAB (mem_copies_of_names hr₁ hr₂))
  · -- both have the same number of parameters, so none is left for a rest parameter
    have hlength : (c.signature y).parameters.length = (c.signature x).parameters.length :=
      hy.parameters.length_eq.symm.trans hx.parameters.length_eq
    intro rest _ b hb
    rw [← hlength, List.drop_length] at hb
    cases hb
  · exact hBA (mem_copies_of_names hy.result hx.result)

theorem signaturesStep_copy {es : List SignatureEntry} {xs ys : List SignatureRef}
    (hx : List.Forall₂ (SignatureRepresented c A.get?) es xs)
    (hy : List.Forall₂ (SignatureRepresented c B.get?) es ys) :
    SignaturesStep R ys xs := by
  intro y hmem
  obtain ⟨x, hxs, e, hex, hey⟩ := exists_of_mem_right hx hy hmem
  exact ⟨x, hxs, hAB ⟨e, hex, hey⟩⟩

theorem indexStep_copy {r : Option EntryIndex} {s t : Option TypeRef} (hs : Option.Rel (Names A.get?) r s)
    (ht : Option.Rel (Names B.get?) r t) : IndexStep R s t := by
  intro b hb
  cases ht with
  | none => cases hb
  | some hrb =>
    cases hs with
    | some hra =>
      cases hb
      exact ⟨_, rfl, hAB (mem_copies_of_names hra hrb)⟩

theorem shapeStep_copy {o : ObjectEntry} {source target : Shape} (hs : ShapeRepresented c A.get? o source)
    (ht : ShapeRepresented c B.get? o target) : ShapeStep R source target := by
  refine ⟨?_, signaturesStep_copy hAB hs.callSignatures ht.callSignatures,
    signaturesStep_copy hAB hs.constructSignatures ht.constructSignatures,
    indexStep_copy hAB hs.numericIndex ht.numericIndex, indexStep_copy hAB hs.stringIndex ht.stringIndex⟩
  intro p hp
  obtain ⟨q, hq, e, heq, hep⟩ := exists_of_mem_right hs.properties ht.properties hp
  have hfind : source.properties.find? p.1 = some q.2 := by
    rw [Members.find?_eq_some_iff, hep.name, ← heq.name]
    exact hq
  unfold PropertyStep
  rw [hfind]
  refine ⟨?_, hAB (mem_copies_of_names heq.type hep.type)⟩
  rw [heq.optional, hep.optional]
  exact id

/-! ## Types -/

variable (hd : d.Checkable)
include hd

theorem targetStep_copy {e : Entry} {s t : TypeRef} (he : e ∈ d.types) (hunion : ∀ rs name, e ≠ .union rs name)
    (hs : Represents A.get? (Defined c A.get?) e (c.get s)) (ht : Represents B.get? (Defined c B.get?) e (c.get t)) :
    TargetStep R c s t := by
  generalize hx : c.get s = x at hs
  generalize hy : c.get t = y at ht
  unfold TargetStep
  rw [hy]
  cases hs with
  | union _ => exact absurd rfl (hunion _ _)
  | intersection _ => exact absurd he (hd.intersections _ _)
  | typeParameter _ => exact absurd he (hd.parameters _)
  | numericLiteral value =>
    cases ht
    exact ⟨value, hx, by simp [Double.equals, hd.numbers value he]⟩
  | object hs =>
    cases ht with
    | object ht =>
      obtain ⟨source, rfl, hsource⟩ := hs
      obtain ⟨target, rfl, htarget⟩ := ht
      exact ⟨target, Catalog.shape_eq_ok.mpr ⟨_, hy⟩, source, Catalog.shape_eq_ok.mpr ⟨_, hx⟩,
        shapeStep_copy hAB hsource htarget⟩
  | booleanLiteral _ => cases ht; exact hx
  | stringLiteral _ => cases ht; exact hx
  | _ => cases ht; simp [Catalog.tag, hx, Descriptor.tag]

variable (hA : Faithful d cA A c) (hB : Faithful d cB B c)
include hA hB

theorem typeStep_copy {i k : Nat} {s t : TypeRef} (hik : ReflTransGen d.UnionMember i k) (hs : A.get? k = some s)
    (ht : B.get? i = some t) : TypeStep R c strict s t := by
  obtain ⟨e, he, hrep⟩ := hA.entry hs
  by_cases hunion : ∃ rs name, e = .union rs name
  · -- what is in a union that is in the target's entry is in that entry too
    obtain ⟨rs, name, rfl⟩ := hunion
    refine .inr ?_
    generalize c.get s = x at hrep
    cases hrep with
    | @union _ ts _ hts =>
      intro member hmember
      obtain ⟨r, hr, hmem⟩ := (mem_iff_of_names hts).mp hmember
      exact hAB ⟨i, r.toNat, hik.tail ⟨rs, name, he, r, hr, rfl⟩, hmem, ht⟩
  · simp only [not_exists] at hunion
    have htarget : TargetStep R c s t := by
      rcases hik.cases_head with rfl | ⟨j, ⟨rs, name, hi, r, hr, rfl⟩, hjk⟩
      · exact targetStep_copy hAB hd (Array.mem_of_getElem? he) hunion hrep (hB.represented ht he)
      · -- the source is in one of the members of the target
        have hrepB := hB.represented ht hi
        generalize hy : c.get t = y at hrepB
        unfold TargetStep
        rw [hy]
        cases hrepB with
        | union hts =>
          obtain ⟨u, hu, hru⟩ := exists_of_forall₂ hts hr
          exact ⟨u, hu, hAB ⟨r.toNat, k, hjk, hs, hru⟩⟩
    refine .inr ?_
    split
    · rename_i name hx
      rw [hx] at hrep
      cases hrep
      exact absurd (Array.mem_of_getElem? he) (hd.parameters name)
    · rename_i ts name hx
      rw [hx] at hrep
      cases hrep
      exact absurd rfl (hunion _ _)
    · exact htarget

include hBA in
theorem copies_step : copies d c A B ⊆ rules c strict R := by
  intro j hj
  refine .inr ?_
  cases j with
  | type s t =>
    obtain ⟨i, k, hik, hs, ht⟩ := hj
    exact typeStep_copy hAB hd hA hB hik hs ht
  | signature x y =>
    obtain ⟨e, hx, hy⟩ := hj
    exact signatureStep_copy hAB hBA hx hy
  | functionTag tag target => exact hj.elim

end

/-! ## What can be reached from a table -/

def handles (c : Catalog) (table : TypeTable) : Set Handle
  | .type t => ∃ i, table.get? i = some t
  | .signature x => ∃ e, SignatureRepresented c table.get? e x

section
variable {d : Document} {c c₀ : Catalog} {table : TypeTable}

theorem mem_handles_of_names {rs : List EntryIndex} {ts : List TypeRef} (h : List.Forall₂ (Names table.get?) rs ts)
    {t : TypeRef} (ht : t ∈ ts) : .type t ∈ handles c table := by
  obtain ⟨r, -, hr⟩ := (mem_iff_of_names h).mp ht
  exact ⟨_, hr⟩

theorem refs_signature_subset {e : SignatureEntry} {x : SignatureRef} (hx : SignatureRepresented c table.get? e x) :
    ∀ g ∈ (c.signature x).refs, g ∈ handles c table := by
  intro g hg
  have hmentioned : ∃ t ∈ (c.signature x).mentioned, g = .type t := by
    simp only [Signature.refs, List.mem_append, List.mem_map, List.mem_singleton] at hg
    simp only [Signature.mentioned, List.mem_append, List.mem_singleton]
    rcases hg with (⟨t, ht, rfl⟩ | ⟨t, ht, rfl⟩) | rfl
    · exact ⟨t, .inl (.inl ht), rfl⟩
    · exact ⟨t, .inl (.inr ht), rfl⟩
    · exact ⟨_, .inr rfl, rfl⟩
  obtain ⟨t, ht, rfl⟩ := hmentioned
  exact mem_handles_of_names hx.names ht

theorem refs_shape_subset {o : ObjectEntry} {shape : Shape} (h : ShapeRepresented c table.get? o shape) :
    ∀ g ∈ shape.refs, g ∈ handles c table := by
  have hsignatures : ∀ {es xs}, List.Forall₂ (SignatureRepresented c table.get?) es xs → ∀ x ∈ xs,
      .signature x ∈ handles c table := by
    intro es xs hxs x hx
    obtain ⟨e, -, he⟩ := exists_of_forall₂ (List.Forall₂.flip hxs) hx
    exact ⟨e, he⟩
  intro g hg
  simp only [Shape.refs, List.mem_append, List.mem_map] at hg
  rcases hg with (((⟨p, hp, rfl⟩ | ⟨x, hx, rfl⟩) | ⟨x, hx, rfl⟩) | ⟨t, ht, rfl⟩) | ⟨t, ht, rfl⟩
  · exact mem_handles_of_names (names_properties h.properties) (List.mem_map_of_mem hp)
  · exact hsignatures h.callSignatures x hx
  · exact hsignatures h.constructSignatures x hx
  · exact mem_handles_of_names (names_option h.numericIndex) ht
  · exact mem_handles_of_names (names_option h.stringIndex) ht

variable (h : Faithful d c₀ table c)
include h

theorem Faithful.refs_subset {g : Handle} (hg : g ∈ handles c table) : ∀ g' ∈ c.refs g, g' ∈ handles c table := by
  cases g with
  | signature x =>
    obtain ⟨e, he⟩ := hg
    exact refs_signature_subset he
  | type t =>
    obtain ⟨i, ht⟩ := hg
    obtain ⟨e, -, hrep⟩ := h.entry ht
    unfold Catalog.refs Descriptor.refs
    dsimp only
    generalize c.get t = x at hrep ⊢
    intro g' hg'
    cases hrep with
    | union hts | intersection hts =>
      obtain ⟨u, hu, rfl⟩ := List.mem_map.mp hg'
      exact mem_handles_of_names hts hu
    | object hs =>
      obtain ⟨shape, rfl, hshape⟩ := hs
      exact refs_shape_subset hshape g' hg'
    | _ => cases hg'

theorem Faithful.shape {i : Nat} {t : TypeRef} {shape : Shape} (ht : table.get? i = some t)
    (hshape : c.shape t = .ok shape) :
    ∃ o, d.types[i]? = some (.objectType o) ∧ ShapeRepresented c table.get? o shape := by
  obtain ⟨e, he, hrep⟩ := h.entry ht
  obtain ⟨name, hget⟩ := Catalog.shape_eq_ok.mp hshape
  rw [hget] at hrep
  cases hrep with
  | @object o _ hs =>
    obtain ⟨shape', hsome, hrepresented⟩ := hs
    cases hsome
    exact ⟨o, he, hrepresented⟩

theorem Faithful.not_blames (hd : d.Checkable) {t : TypeRef} (ht : .type t ∈ handles c table) (e : Failure) :
    ¬ c.Blames t e := by
  obtain ⟨i, ht⟩ := ht
  obtain ⟨entry, hentry, hrep⟩ := h.entry ht
  have hmem : entry ∈ d.types := Array.mem_of_getElem? hentry
  unfold Catalog.Blames Catalog.tag
  generalize c.get t = x at hrep ⊢
  cases hrep with
  | intersection _ => exact absurd hmem (hd.intersections _ _)
  | typeParameter _ => exact absurd hmem (hd.parameters _)
  | object hs =>
    obtain ⟨shape, rfl, -⟩ := hs
    split <;> simp [Descriptor.tag]
  | _ => split <;> simp [Descriptor.tag]

end

def mutualCopies (d : Document) (c : Catalog) (A B : TypeTable) : Set Judgment := copies d c A B ∪ copies d c B A

section
variable {d : Document} {c cA cB : Catalog} {A B : TypeTable}

theorem mutualCopies_step (strict : Bool) (hd : d.Checkable) (hA : Faithful d cA A c) (hB : Faithful d cB B c) :
    mutualCopies d c A B ⊆ rules c strict (mutualCopies d c A B) :=
  Set.union_subset (copies_step Set.subset_union_left Set.subset_union_right hd hA hB)
    (copies_step Set.subset_union_right Set.subset_union_left hd hB hA)

end

end Document

end TypeContracts
