import Mathlib.Data.Set.Card
import Mathlib.Data.Set.Finite.List
import TypeContracts.Proofs.Descriptor.Graph

/-!
# How much of a catalog can be reached

From finitely many handles finitely many others are reached, on cycles too,
because a catalog refers to finitely many. Where every cycle passes through an
object type, unions and intersections nest to a finite depth (`rank`).
-/

namespace TypeContracts.Catalog

section
variable (c : Catalog) (roots : Set Handle)

def reached : Set Handle := { g | ∃ r ∈ roots, c.Reaches r g }

def reachedTypes : Set TypeRef := { t | .type t ∈ c.reached roots }

def reachedSignatures : Set SignatureRef := { x | .signature x ∈ c.reached roots }

noncomputable def typeCount : Nat := (c.reachedTypes roots).ncard

noncomputable def signatureCount : Nat := (c.reachedSignatures roots).ncard

end

variable {c : Catalog} {roots : Set Handle}

theorem mem_reached {g : Handle} (hg : g ∈ roots) : g ∈ c.reached roots := ⟨g, hg, .refl⟩

theorem reached_closed : ∀ g ∈ c.reached roots, ∀ g' ∈ c.refs g, g' ∈ c.reached roots := by
  intro g hg g' hg'
  obtain ⟨r, hr, hreach⟩ := hg
  exact ⟨r, hr, hreach.tail hg'⟩

theorem reached_subset {S : Set Handle} (hroots : roots ⊆ S) (hS : ∀ g ∈ S, ∀ g' ∈ c.refs g, g' ∈ S) :
    c.reached roots ⊆ S := by
  intro g ⟨r, hr, hreach⟩
  induction hreach with
  | refl => exact hroots hr
  | tail _ hstep ih => exact hS _ ih _ hstep

theorem finite_refs (c : Catalog) : { g' | ∃ g, g' ∈ c.refs g }.Finite := by
  refine (List.finite_toSet (c.types.toList.flatMap Descriptor.refs ++ c.signatures.toList.flatMap Signature.refs ++
    (default : Signature).refs)).subset ?_
  intro g' hg'
  obtain ⟨g, hg⟩ := hg'
  simp only [List.mem_append, List.mem_flatMap, Set.mem_ofPred_eq]
  cases g with
  | type t =>
    obtain hmem | hnone := getD_mem_or c.types t.index .never
    · exact .inl (.inl ⟨_, hmem, hg⟩)
    · simp [refs, Catalog.get, hnone, Descriptor.refs] at hg
  | signature x =>
    obtain hmem | hnone := getD_mem_or c.signatures x.index default
    · exact .inl (.inr ⟨_, hmem, hg⟩)
    · simp only [refs, Catalog.signature, hnone] at hg
      exact .inr hg

theorem finite_reached (hroots : roots.Finite) : (c.reached roots).Finite := by
  refine (hroots.union c.finite_refs).subset ?_
  intro g hg
  obtain ⟨r, hr, hreach⟩ := hg
  obtain rfl | ⟨g', -, hg'⟩ := Relation.ReflTransGen.cases_tail hreach
  · exact .inl hr
  · exact .inr ⟨g', hg'⟩

theorem finite_reachedTypes (hroots : roots.Finite) : (c.reachedTypes roots).Finite := by
  refine (finite_reached hroots).preimage ?_
  intro a _ b _ hab
  cases hab
  rfl

theorem finite_reachedSignatures (hroots : roots.Finite) : (c.reachedSignatures roots).Finite := by
  refine (finite_reached hroots).preimage ?_
  intro a _ b _ hab
  cases hab
  rfl

theorem ncard_reached_pos (hroots : roots.Finite) {g : Handle} (hg : g ∈ roots) : 0 < (c.reached roots).ncard :=
  (Set.ncard_pos (finite_reached hroots)).mpr ⟨g, mem_reached hg⟩

theorem ncard_reached (hroots : roots.Finite) :
    (c.reached roots).ncard ≤ c.typeCount roots + c.signatureCount roots := by
  have hsplit : c.reached roots ⊆
      Handle.type '' c.reachedTypes roots ∪ Handle.signature '' c.reachedSignatures roots := by
    intro g hg
    cases g with
    | type t => exact .inl ⟨t, hg, rfl⟩
    | signature x => exact .inr ⟨x, hg, rfl⟩
  have htypes := finite_reachedTypes (c := c) hroots
  have hsignatures := finite_reachedSignatures (c := c) hroots
  calc (c.reached roots).ncard
      ≤ (Handle.type '' c.reachedTypes roots ∪ Handle.signature '' c.reachedSignatures roots).ncard :=
        Set.ncard_le_ncard hsplit ((htypes.image _).union (hsignatures.image _))
    _ ≤ (Handle.type '' c.reachedTypes roots).ncard + (Handle.signature '' c.reachedSignatures roots).ncard :=
        Set.ncard_union_le _ _
    _ ≤ c.typeCount roots + c.signatureCount roots :=
        Nat.add_le_add (Set.ncard_image_le htypes) (Set.ncard_image_le hsignatures)

/-! ## Unions and intersections -/

section
open Relation (TransGen ReflTransGen)

def IsObject (c : Catalog) : Handle → Prop
  | .type t => c.tag t = .object
  | .signature _ => False

/-- Every cycle passes through an object type. -/
def Contractive (c : Catalog) : Prop := ∀ g, ¬ TransGen (fun a b => ¬ c.IsObject a ∧ b ∈ c.refs a) g g

theorem not_transGen_of_lt {r : Handle → Handle → Prop} {f : Handle → Nat} (hf : ∀ a b, r a b → f b < f a)
    (g : Handle) : ¬ TransGen r g g := by
  intro hg
  have hlt : ∀ {a b}, TransGen r a b → f b < f a := by
    intro a b hab
    induction hab with
    | single h => exact hf _ _ h
    | tail _ h ih => exact (hf _ _ h).trans ih
  exact Nat.lt_irrefl _ (hlt hg)

theorem contractive_of_lt {f : Handle → Nat} (hf : ∀ a b, ¬ c.IsObject a → b ∈ c.refs a → f b < f a) :
    c.Contractive :=
  fun g => not_transGen_of_lt (fun a b h => hf a b h.1 h.2) g

/-- The second type is a member of the first, which is a union or an intersection. -/
def Part (c : Catalog) (t u : TypeRef) : Prop := c.tag t ≠ .object ∧ .type u ∈ c.refs (.type t)

def parted (c : Catalog) (t : TypeRef) : Set TypeRef := { u | ReflTransGen c.Part t u ∧ ∃ m, c.Part u m }

/-- How deep unions and intersections nest below a type, at most. -/
noncomputable def rank (c : Catalog) (t : TypeRef) : Nat := (c.parted t).ncard

theorem parted_subset (c : Catalog) (t : TypeRef) :
    c.parted t ⊆ (((Finset.range c.types.size).image TypeRef.mk : Finset TypeRef) : Set TypeRef) := by
  intro u ⟨_, m, _, hm⟩
  have hu : u.index < c.types.size := by
    by_contra hu
    simp [refs, Catalog.get, Array.getD, hu, Descriptor.refs] at hm
  simpa using ⟨u.index, hu, rfl⟩

theorem finite_parted (c : Catalog) (t : TypeRef) : (c.parted t).Finite :=
  (Finset.finite_toSet _).subset (c.parted_subset t)

theorem rank_le (c : Catalog) (t : TypeRef) : c.rank t ≤ c.types.size := by
  have hle := Set.ncard_le_ncard (c.parted_subset t) (Finset.finite_toSet _)
  rw [Set.ncard_coe_finset] at hle
  exact hle.trans (Finset.card_image_le.trans (Finset.card_range _).le)

theorem Contractive.not_part (hc : c.Contractive) (t : TypeRef) : ¬ TransGen c.Part t t := by
  intro ht
  exact hc (.type t) (ht.lift Handle.type fun a b hab => hab)

theorem Contractive.rank_lt (hc : c.Contractive) {t u : TypeRef} (hu : c.Part t u) : c.rank u < c.rank t := by
  refine Set.ncard_lt_ncard ⟨?_, ?_⟩ (c.finite_parted t)
  · intro m ⟨hm, hpart⟩
    exact ⟨ReflTransGen.head hu hm, hpart⟩
  · intro hsub
    obtain ⟨hback, -⟩ := hsub ⟨ReflTransGen.refl, u, hu⟩
    exact hc.not_part t (TransGen.head' hu hback)

/-! ## Graphs without cycles -/

def Acyclic (c : Catalog) (roots : Set Handle) : Prop :=
  ∀ g ∈ c.reached roots, ¬ TransGen (fun g h => h ∈ c.refs g) g g

theorem acyclic_of_lt {f : Handle → Nat} (hf : ∀ a b, b ∈ c.refs a → f b < f a) : c.Acyclic roots :=
  fun g _ => not_transGen_of_lt hf g

noncomputable def height (c : Catalog) (g : Handle) : Nat := { h | TransGen (fun g h => h ∈ c.refs g) g h }.ncard

theorem Acyclic.height_lt (hc : c.Acyclic roots) {g h : Handle} (hg : g ∈ c.reached roots) (hh : h ∈ c.refs g) :
    c.height h < c.height g := by
  have hfinite : { h | TransGen (fun g h => h ∈ c.refs g) g h }.Finite := by
    refine c.finite_refs.subset fun h hh => ?_
    obtain ⟨g', -, hh⟩ := TransGen.tail'_iff.mp hh
    exact ⟨g', hh⟩
  refine Set.ncard_lt_ncard ⟨fun k hk => TransGen.head hh hk, fun hsub => ?_⟩ hfinite
  exact hc h (reached_closed g hg h hh) (hsub (TransGen.single hh))

end

end TypeContracts.Catalog
