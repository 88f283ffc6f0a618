import Mathlib.Data.Set.Card
import TypeContracts.Engine.Guard

/-!
# What a guard has in progress

The depth of a guard is the number of questions in progress (`Synced`). An
attempt that is not entered, and a question that is entered and left again,
leave the guard as it was but for the count of attempts (`Restored`).
-/

namespace TypeContracts

theorem Admission.ne_entered {a : Admission} (h : a.isExceeded = true) : a ≠ .entered := by
  rintro rfl
  cases h

namespace Guard

variable {κ : Type} [Ord κ] {g g₁ g₂ : Guard κ} {key other : κ}

def Synced (g : Guard κ) : Prop := g.depth = g.visiting.size

def Empty (g : Guard κ) : Prop := g.depth = 0 ∧ g.visiting.isEmpty = true

instance (g : Guard κ) : Decidable g.Empty := inferInstanceAs (Decidable (_ ∧ _))

structure Restored (g g' : Guard κ) : Prop where
  limits : g'.limits = g.limits
  synced : g.Synced → g'.Synced
  depth : g.Synced → g'.depth = g.depth
  visiting : g.Synced → ∀ key, g'.isVisiting key = g.isVisiting key

theorem Restored.refl (g : Guard κ) : Restored g g := ⟨rfl, id, fun _ => rfl, fun _ _ => rfl⟩

theorem Restored.trans (h₁ : Restored g g₁) (h₂ : Restored g₁ g₂) : Restored g g₂ where
  limits := h₂.limits.trans h₁.limits
  synced h := h₂.synced (h₁.synced h)
  depth h := (h₂.depth (h₁.synced h)).trans (h₁.depth h)
  visiting h key := (h₂.visiting (h₁.synced h) key).trans (h₁.visiting h key)

theorem empty_iff : g.Empty ↔ g.Synced ∧ g.depth = 0 := by
  rw [Empty, Synced, Std.TreeSet.isEmpty_eq_size_eq_zero, beq_iff_eq]
  constructor
  · intro ⟨hdepth, hsize⟩
    exact ⟨hdepth.trans hsize.symm, hdepth⟩
  · intro ⟨hsynced, hdepth⟩
    exact ⟨hdepth, hsynced.symm.trans hdepth⟩

theorem Restored.empty (h : Restored g g₁) (he : g.Empty) : g₁.Empty := by
  obtain ⟨hsynced, hdepth⟩ := empty_iff.mp he
  exact empty_iff.mpr ⟨h.synced hsynced, (h.depth hsynced).trans hdepth⟩

theorem restored_count (g : Guard κ) : Restored g g.count := ⟨rfl, id, fun _ => rfl, fun _ _ => rfl⟩

theorem synced_reset (g : Guard κ) : g.reset.Synced := rfl

theorem restored_denied (h : (g.enter key).1 ≠ .entered) : Restored g (g.enter key).2 := by
  rw [enter_fst] at h
  rw [enter_snd, if_neg h]
  exact restored_count g

theorem isVisiting_of_cycle (h : (g.enter key).1 = .cycle) : g.isVisiting key = true := by
  rw [enter_fst] at h
  unfold admission at h
  split at h
  · cases h
  · split at h
    · cases h
    · split at h
      · assumption
      · cases h

theorem not_isVisiting_of_entered (h : (g.enter key).1 = .entered) : g.isVisiting key = false := by
  rw [enter_fst] at h
  unfold admission at h
  split at h
  · cases h
  · split at h
    · cases h
    · split at h
      · cases h
      · exact Bool.eq_false_iff.mpr ‹_›

theorem depth_lt_of_entered (h : (g.enter key).1 = .entered) : g.depth < g.limits.maxDepth.toNat := by
  rw [enter_fst] at h
  unfold admission at h
  split at h
  · cases h
  · split at h
    · cases h
    · exact Nat.lt_of_not_le ‹_›

theorem enter_iterations (g : Guard κ) (key : κ) :
    (g.enter key).2.iterations = min (g.iterations + 1) unboundedIterations := by
  rw [enter_snd]
  split <;> rfl

theorem enter_limits (g : Guard κ) (key : κ) : (g.enter key).2.limits = g.limits := by
  rw [enter_snd]
  split <;> rfl

theorem iterations_le_of_entered (h : (g.enter key).1 = .entered) :
    min (g.iterations + 1) unboundedIterations ≤ g.limits.maxIterations.toNat := by
  rw [enter_fst] at h
  unfold admission at h
  split at h
  · cases h
  · exact Nat.le_of_not_lt ‹_›

/-- The count of attempts stops at the highest limit there is. -/
theorem depth_of_isExceeded (h : (g.enter key).1.isExceeded = true)
    (hlimit : g.limits.maxIterations.toNat = unboundedIterations) : g.limits.maxDepth.toNat ≤ g.depth := by
  rw [enter_fst] at h
  unfold admission at h
  split at h
  · rename_i hi
    have hle : g.count.iterations ≤ unboundedIterations := Nat.min_le_right _ _
    rw [show g.count.limits = g.limits from rfl, hlimit] at hi
    omega
  · split at h
    · assumption
    · split at h <;> cases h

section
variable [Std.TransOrd κ]

theorem isVisiting_of_depth (hs : g.Synced) (hd : g.depth = 0) (key : κ) : g.isVisiting key = false := by
  have he : g.visiting.isEmpty = true := by
    rw [Std.TreeSet.isEmpty_eq_size_eq_zero, ← hs, hd]; rfl
  exact Std.TreeSet.isEmpty_iff_forall_contains.mp he key

theorem synced_leave (hs : g.Synced) (hv : g.isVisiting key = true) : (g.leave key).Synced := by
  simp only [Synced, leave, Std.TreeSet.size_erase]
  rw [show g.visiting.contains key = true from hv, if_pos rfl]
  exact congrArg (· - 1) hs

/-- A guard starts over only when nothing is in progress. -/
theorem restored_renewed (g : Guard κ) : Restored g g.renewed := by
  unfold renewed isActive
  by_cases hd : g.depth = 0
  · simp only [hd, bne_self_eq_false, Bool.false_eq_true, if_false]
    refine ⟨rfl, fun _ => synced_reset g, fun _ => hd.symm, fun hs key => ?_⟩
    rw [isVisiting_of_depth hs hd]
    exact isVisiting_of_depth (synced_reset g) rfl key
  · simp only [bne_iff_ne, ne_eq, hd, not_false_eq_true, if_true]
    exact Restored.refl g

end

theorem isVisiting_of_renewed (h : g.renewed.isVisiting key = true) : g.isVisiting key = true := by
  unfold renewed at h
  split at h
  · exact h
  · simp [reset, isVisiting] at h

section
variable [Std.TransOrd κ] [Std.LawfulEqOrd κ]

theorem isVisiting_of_enter (h : (g.enter key).2.isVisiting other = true) :
    key = other ∨ g.isVisiting other = true := by
  rw [enter_snd] at h
  split at h
  · exact (isVisiting_begin g.count key other).mp h
  · exact .inr h

theorem ncard_visiting (hs : g.Synced) :
    { key | g.isVisiting key = true }.Finite ∧ { key | g.isVisiting key = true }.ncard = g.depth := by
  classical
  have hset : { key | g.isVisiting key = true } = (g.visiting.toList.toFinset : Set κ) := by
    ext key
    simp [isVisiting]
  have hnodup : g.visiting.toList.Nodup := by
    refine Std.TreeSet.distinct_toList.imp ?_
    intro a b hab heq
    rw [heq] at hab
    exact hab Std.ReflCmp.compare_self
  rw [hset, Set.ncard_coe_finset, List.toFinset_card_of_nodup hnodup, Std.TreeSet.length_toList]
  exact ⟨Finset.finite_toSet _, hs.symm⟩

theorem entered (h : (g.enter key).1 = .entered) :
    (g.enter key).2.limits = g.limits ∧ (g.enter key).2.depth = g.depth + 1 ∧
      (g.Synced → (g.enter key).2.Synced) ∧
        ∀ other, (g.enter key).2.isVisiting other = true ↔ key = other ∨ g.isVisiting other = true := by
  have hv := not_isVisiting_of_entered h
  rw [enter_fst] at h
  rw [enter_snd, if_pos h]
  refine ⟨rfl, rfl, fun hs => ?_, fun other => isVisiting_begin g.count key other⟩
  simp only [Synced, begin, count, Std.TreeSet.size_insert]
  rw [show g.visiting.contains key = false from hv]
  exact congrArg (· + 1) hs

theorem restored_leave (h : (g.enter key).1 = .entered) (hr : Restored (g.enter key).2 g₂) :
    Restored g (g₂.leave key) := by
  have hv := not_isVisiting_of_entered h
  obtain ⟨hl, hd, hs, hi⟩ := entered h
  refine ⟨hr.limits.trans hl, fun hg => ?_, fun hg => ?_, fun hg other => ?_⟩
  · have hk : g₂.isVisiting key = true := by rw [hr.visiting (hs hg), hi]; exact .inl rfl
    exact synced_leave (hr.synced (hs hg)) hk
  · simp only [leave, hr.depth (hs hg), hd, Nat.add_sub_cancel]
  · rw [Bool.eq_iff_iff, isVisiting_leave, hr.visiting (hs hg), hi]
    by_cases ho : key = other
    · subst ho; simp [hv]
    · simp [ho]

end

end Guard

end TypeContracts
