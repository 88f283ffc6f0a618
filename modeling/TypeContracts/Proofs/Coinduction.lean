import Mathlib

/-!
# Greatest fixed points under assumptions

A checker that takes the questions in progress for granted proves less than it
seems to: a yes holds provisionally, under these assumptions. The assumption a
question makes about itself can be dropped when the question is settled
(`provisional_insert`), and with no assumption left a provisional yes is a yes.
-/

namespace TypeContracts

variable {α : Type} (F : Set α →o Set α) {A B : Set α}

/-- What the rules `F` allow to conclude coinductively with the members of `A` taken for granted. -/
def provisional (A : Set α) : Set α :=
  OrderHom.gfp (F.comp ⟨fun X => X ∪ A, fun _ _ h => Set.union_subset_union_left A h⟩)

theorem provisional_eq (A : Set α) : F (provisional F A ∪ A) = provisional F A :=
  OrderHom.map_gfp (F.comp ⟨fun X => X ∪ A, _⟩)

theorem subset_provisional {X : Set α} (h : X ⊆ F (X ∪ A)) : X ⊆ provisional F A :=
  OrderHom.le_gfp _ h

@[simp]
theorem provisional_empty : provisional F ∅ = F.gfp := by
  unfold provisional
  congr 1
  ext X : 2
  simp

theorem gfp_subset_provisional (A : Set α) : F.gfp ⊆ provisional F A := by
  refine subset_provisional F ?_
  calc F.gfp = F F.gfp := (OrderHom.map_gfp F).symm
    _ ⊆ F (F.gfp ∪ A) := F.monotone Set.subset_union_left

/-- A question may assume itself. -/
theorem provisional_insert {x : α} (h : x ∈ provisional F (insert x A)) : x ∈ provisional F A := by
  -- with `x` concluded, assuming it as well adds nothing
  have hx : provisional F (insert x A) ∪ insert x A = provisional F (insert x A) ∪ A := by
    rw [Set.union_insert, Set.insert_eq_of_mem (Set.mem_union_left A h)]
  refine subset_provisional F (X := provisional F (insert x A)) ?_ h
  rw [← hx, provisional_eq]

end TypeContracts
