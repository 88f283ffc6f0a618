import TypeContracts.Proofs.Engine.Turns

/-!
# The work of an engine

A key is held while its judgment is in progress, and from when its answer is in
the cache. A judgment whose answer is not kept may be computed again. That is so
only if something was assumed while it was computed, and an assumption is made
in the course of no more judgments than are in progress (`Covers.computed`).
-/

namespace TypeContracts

namespace Cache

variable {c : Cache} {key : JudgmentKey}

theorem ncard_answered (c : Cache) :
    { key | c.peek key ≠ none }.Finite ∧ { key | c.peek key ≠ none }.ncard = c.size := by
  classical
  have hset : { key | c.peek key ≠ none } = (c.entries.keys.toFinset : Set JudgmentKey) := by
    ext key
    simp [peek]
  have hnodup : c.entries.keys.Nodup := by
    refine Std.TreeMap.distinct_keys.imp ?_
    intro a b hab heq
    rw [heq] at hab
    exact hab Std.ReflCmp.compare_self
  rw [hset, Set.ncard_coe_finset, List.toFinset_card_of_nodup hnodup, Std.TreeMap.length_keys]
  exact ⟨Finset.finite_toSet _, rfl⟩

theorem size_insert (h : c.peek key = none) (b : Bool) : (c.insert key b).size = c.size + 1 := by
  have hnone : key ∉ c.entries := by simpa [peek] using h
  simp [size, insert, Std.TreeMap.size_insert, hnone]

end Cache

namespace Engine

variable {e e₁ e₂ : Engine} {key : JudgmentKey} {k : Nat}

/-! ## Keys -/

def held (e : Engine) : Set JudgmentKey :=
  { key | e.subtypeGuard.isVisiting key = true ∨ e.cache.peek key ≠ none }

theorem Tidy.ncard_held (ht : e.Tidy) : e.held.Finite ∧ e.held.ncard = e.subtypeGuard.depth + e.cache.size := by
  obtain ⟨hvisiting, hdepth⟩ := Guard.ncard_visiting ht.synced
  obtain ⟨hanswered, hsize⟩ := e.cache.ncard_answered
  have hdisjoint : Disjoint { key | e.subtypeGuard.isVisiting key = true } { key | e.cache.peek key ≠ none } :=
    Set.disjoint_left.mpr fun key hv hp => hp (ht.absent key hv)
  refine ⟨hvisiting.union hanswered, ?_⟩
  rw [← hdepth, ← hsize]
  exact Set.ncard_union_eq hdisjoint hvisiting hanswered

theorem held_create (options : Options) : (create options).held = ∅ := by
  refine Set.eq_empty_of_forall_notMem fun key hkey => ?_
  obtain hv | hp := hkey
  · simp [create, Guard.ofProfile, Guard.isVisiting] at hv
  · simp [create, Cache.peek] at hp

theorem held_of_restored (hs : e.subtypeGuard.Synced) (hguard : e.subtypeGuard.Restored e₁.subtypeGuard)
    (hcache : e₁.cache.entries = e.cache.entries) : e₁.held = e.held := by
  ext key
  simp only [held, Cache.peek, hcache, hguard.visiting hs, Set.mem_ofPred_eq]

theorem held_begun (hs : e.subtypeGuard.Synced) (ha : (e.subtypeGuard.renewed.enter key).1 = .entered) :
    (e.begun key).held = insert key e.held := by
  obtain ⟨-, -, -, hvisit⟩ := Guard.entered ha
  ext other
  simp only [held, begun, tried, asked, Cache.peek_lookup, hvisit, Set.mem_ofPred_eq, Set.mem_insert_iff,
    e.subtypeGuard.restored_renewed.visiting hs, or_assoc, eq_comm (a := key)]

theorem held_of_tried (e : Engine) (key : JudgmentKey) : (e.tried key).held ⊆ insert key e.held := by
  intro other hother
  obtain hother | hother := hother
  · obtain rfl | hother := Guard.isVisiting_of_enter hother
    · exact .inl rfl
    · exact .inr (.inl (Guard.isVisiting_of_renewed hother))
  · exact .inr (.inr (by rwa [tried, asked, Cache.peek_lookup] at hother))

theorem held_of_left (e : Engine) (key : JudgmentKey) : (e.left key).held ⊆ e.held := by
  intro other hother
  exact hother.imp (fun h => ((Guard.isVisiting_leave ..).mp h).2) id

theorem held_of_kept (e : Engine) (key : JudgmentKey) (before : Nat) (b : Bool) :
    (e.kept key before b).held ⊆ insert key e.held := by
  intro other hother
  obtain hkept | hkept := e.kept_cases key before b
  · rw [hkept] at hother
    exact .inr hother
  · rw [hkept] at hother
    obtain hother | hother := hother
    · exact .inr (.inl hother)
    · rw [Cache.peek_insert] at hother
      split at hother
      · rename_i heq
        exact .inl heq.symm
      · exact .inr (.inr hother)

theorem held_left (hv : e.subtypeGuard.isVisiting key = true) (before : Nat) (b : Bool) :
    ((e.left key).kept key before b).held ⊆ e.held := by
  intro other hother
  obtain rfl | hother := (e.left key).held_of_kept key before b hother
  · exact .inl hv
  · exact e.held_of_left key hother

/-! ## Computations -/

/-- Of what has been computed meanwhile there is an answer in the cache, but for `k` judgments for each assumption that
has been made. -/
structure Covers (k : Nat) (e e' : Engine) : Prop where
  assumptions : e.cycleAssumptions ≤ e'.cycleAssumptions
  answers : e'.uncachedJudgments + (e.cache.size + e.cycleAssumptions * k) ≤
    e.uncachedJudgments + (e'.cache.size + e'.cycleAssumptions * k)

namespace Covers

theorem refl (k : Nat) (e : Engine) : Covers k e e := ⟨Nat.le_refl _, Nat.le_refl _⟩

theorem trans (h₁ : Covers k e e₁) (h₂ : Covers k e₁ e₂) : Covers k e e₂ := by
  refine ⟨h₁.assumptions.trans h₂.assumptions, ?_⟩
  have hfirst := h₁.answers
  have hsecond := h₂.answers
  omega

theorem found {b : Bool} (hp : e.cache.peek key = some b) : Covers k e (e.asked key) := by
  rw [asked_of_some hp]
  exact ⟨Nat.le_refl _, Nat.le_refl _⟩

theorem assumed (hp : e.cache.peek key = none) :
    Covers k e { e.tried key with cycleAssumptions := e.cycleAssumptions + 1 } := by
  rw [tried, asked_of_none hp]
  refine ⟨Nat.le_succ _, Nat.add_le_add_left (Nat.add_le_add_left ?_ _) _⟩
  exact Nat.mul_le_mul_right k (Nat.le_succ _)

theorem computed (h : Covers k (e.begun key) e₁) (ht : e₁.Tidy) (hv : e₁.subtypeGuard.isVisiting key = true)
    (b : Bool) : Covers (k + 1) e ((e₁.left key).kept key e.cycleAssumptions b) := by
  have hassumptions : e.cycleAssumptions ≤ e₁.cycleAssumptions := h.assumptions
  refine ⟨by rw [kept_cycleAssumptions]; exact hassumptions, ?_⟩
  have hinner : e₁.uncachedJudgments + (e.cache.size + e.cycleAssumptions * k) ≤
      e.uncachedJudgments + 1 + (e₁.cache.size + e₁.cycleAssumptions * k) := by
    have hsize : (e.begun key).cache.size = e.cache.size := congrArg Std.TreeMap.size (e.cache.entries_lookup key)
    have hanswers := h.answers
    rw [hsize] at hanswers
    exact hanswers
  unfold kept
  split
  · rw [Cache.size_insert (c := (e₁.left key).cache) (ht.absent key hv)]
    simp only [left, Nat.mul_succ]
    omega
  · -- the answer is not kept, so something has been assumed, and that pays for one more
    rename_i hnot
    simp only [left, Bool.or_eq_true, beq_iff_eq, not_or] at hnot
    have hmore : e.cycleAssumptions < e₁.cycleAssumptions := Nat.lt_of_le_of_ne hassumptions (Ne.symm hnot.2)
    simp only [left, Nat.mul_succ]
    omega

end Covers

end Engine

end TypeContracts
