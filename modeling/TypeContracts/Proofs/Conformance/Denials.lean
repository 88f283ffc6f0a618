import TypeContracts.Proofs.Compatibility.Denials
import TypeContracts.Proofs.Conformance.Parts
import TypeContracts.Proofs.Conformance.Verdicts

/-!
# What value checks keep

A value check decides no judgment but those on tags, and what these keep it
keeps too (`keeps_isType_of_tags`).
-/

namespace TypeContracts

open Compatibility (Spares resolve_spared)

theorem Keeps.compositional {I : Context → Prop} : Compositional Set.univ (Keeps I) where
  pure := .pure
  throw _ := .throw _
  bind := .bind

theorem Keeps.get {I : Context → Prop} : Keeps I (MonadState.get : Check Context) := ⟨fun s => .refl s, fun hs _ => hs⟩

namespace Conformance

section
variable {I : Context → Prop} (hsound : ∀ {s}, I s → s.identities.Sound)
  (hstable : ∀ {s : Context} {ids : Identities} (valueGuard : Guard ValueCheck) (journal : Log.Journal), I s →
    s.identities.Grows ids → ids.Sound → I ⟨{ s.engine with valueGuard }, ids, journal⟩)
include hsound hstable

theorem keeps_guarded {value : Nat} {t : TypeRef} {m : Check Bool} (hm : Keeps I m) :
    Keeps I (guarded value t m) := by
  refine ⟨guarded_follows hm.follows, fun {s} h hroom => ?_⟩
  have hassign : ∀ {i ids}, s.identities.assign (.type t) = (i, ids) → ids.HasRoom →
      s.identities.Grows ids ∧ ids.Sound := by
    intro i ids hi hids
    have hg := s.identities.grows_assign (.type t)
    have hs := (hsound h).assign (h := .type t)
    rw [hi] at hg hs
    exact ⟨hg, hs hids⟩
  have hg := guarded_guarded value t m s
  generalize guarded value t m s = r at hg hroom ⊢
  cases hg with
  | assumed journal hi ha | denied hi ha =>
    obtain ⟨hids, hs⟩ := hassign hi hroom
    exact hstable _ _ h hids hs
  | @computed i ids b s' hi ha hrun =>
    have hf := hm.follows ⟨s.engine.valueTried ⟨value, i⟩, ids, s.journal⟩
    have hkeeps := hm.keeps (s := ⟨s.engine.valueTried ⟨value, i⟩, ids, s.journal⟩)
    rw [hrun] at hf hkeeps
    obtain ⟨hids, hs⟩ := hassign hi (hf.identities.hasRoom hroom)
    have hafter := hkeeps (hstable _ _ h hids hs) hroom
    exact hstable _ _ hafter (.refl _) (hsound hafter)
  | @failed i ids e s' hi ha hrun =>
    have hf := hm.follows ⟨s.engine.valueTried ⟨value, i⟩, ids, s.journal⟩
    have hkeeps := hm.keeps (s := ⟨s.engine.valueTried ⟨value, i⟩, ids, s.journal⟩)
    rw [hrun] at hf hkeeps
    obtain ⟨hids, hs⟩ := hassign hi (hf.identities.hasRoom hroom)
    have hafter := hkeeps (hstable _ _ h hids hs) hroom
    exact hstable _ _ hafter (.refl _) (hsound hafter)

/-- A value check keeps what the judgments on tags keep. -/
theorem keeps_isType_of_tags {c : Catalog} {h : Heap} {S : Set Handle} (hclosed : ∀ g ∈ S, ∀ g' ∈ c.refs g, g' ∈ S)
    (htags : ∀ f, ∀ tag ∈ (h.function f).tag, .type tag ∈ S)
    (hresolve : ∀ {tag t}, .type tag ∈ S → .type t ∈ S → Keeps I (Compatibility.resolve c (.functionTag tag t)))
    (v : Value) {t : TypeRef} (ht : .type t ∈ S) : Keeps I (isType c h v t) :=
  isType_of_parts (V := Set.univ) Keeps.compositional hclosed (by simp) (fun _ _ => Set.mem_univ _)
    (fun _ _ _ _ hm => keeps_guarded hsound hstable hm) (fun {f tag t _} _ hf ht _ => hresolve (htags f tag hf) ht)
    (Set.mem_univ _) (fun _ hf => Keeps.get.bind hf) (fun _ => Set.mem_univ _) ht

end

section
variable {T : Set Judgment} {strict : Bool} {c₀ c : Catalog} {h : Heap} {S : Set Handle}
  (hT : T ⊆ Compatibility.rules c strict T) (hclosed : ∀ g ∈ S, ∀ g' ∈ c₀.refs g, g' ∈ S) (hS : ∀ g ∈ S, c₀.Refines c g)
  (htags : ∀ f, ∀ tag ∈ (h.function f).tag, .type tag ∈ S)
include hT hclosed hS htags

theorem keeps_isType (v : Value) {t : TypeRef} (ht : .type t ∈ S) :
    Keeps (Spares T strict) (isType c₀ h v t) := by
  refine keeps_isType_of_tags (fun h => h.identities) (fun _ _ h hids hs => ?_) hclosed htags
    (fun {tag t} htag ht => ?_) v ht
  · exact h.of_cache rfl hids hs fun _ => rfl
  · have hspared := resolve_spared (j := .functionTag tag t) hT hclosed hS htag ht
    exact hspared.toKeeps

end

end Conformance

end TypeContracts
