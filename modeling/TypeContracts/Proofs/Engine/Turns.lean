import TypeContracts.Proofs.Engine.Ledger

/-!
# The turns of an engine

All that happens to an engine between two resets is a sequence of turns. Where
no key in progress has an answer in the cache, no turn makes one so
(`Turn.tidy`), because an answer is inserted when its key is left. So each turn
leaves the entries of the cache alone or adds one (`Turn.appends`).
-/

namespace TypeContracts

open Relation (ReflTransGen)

namespace Cache

def Appends (c c' : Cache) : Prop :=
  c'.entries = c.entries ∨ ∃ key b, c.peek key = none ∧ c'.entries = c.entries.insert key b

theorem Appends.peek {c c' : Cache} (h : c.Appends c') {key : JudgmentKey} {b : Bool} (hp : c.peek key = some b) :
    c'.peek key = some b := by
  obtain h | ⟨other, b', hnone, h⟩ := h
  · rw [Cache.peek, h]
    exact hp
  · have hne : other ≠ key := by
      intro heq
      rw [heq, hp] at hnone
      cases hnone
    have hinsert := peek_insert c other key b'
    rw [if_neg hne, hp] at hinsert
    rw [Cache.peek, h]
    exact hinsert

theorem entries_lookup (c : Cache) (key : JudgmentKey) : (c.lookup key).2.entries = c.entries := by
  unfold lookup
  split <;> rfl

end Cache

namespace Engine

/-- A judgment is found in the cache, assumed, denied or begun. One in progress is left, with its answer in the cache
or without. Or the guard of value checks is used, or the sink is installed or cleared. -/
inductive Turn : Engine → Engine → Prop
  | found {e key b} : e.cache.peek key = some b → Turn e (e.asked key)
  | assumed {e key} : e.cache.peek key = none → (e.subtypeGuard.renewed.enter key).1 = .cycle →
      Turn e { e.tried key with cycleAssumptions := e.cycleAssumptions + 1 }
  | denied {e key} : e.cache.peek key = none → (e.subtypeGuard.renewed.enter key).1.isExceeded = true →
      Turn e (e.tried key)
  | begun {e key} : e.cache.peek key = none → (e.subtypeGuard.renewed.enter key).1 = .entered →
      Turn e (e.begun key)
  | answered {e key} (b) : e.subtypeGuard.isVisiting key = true →
      Turn e { e.left key with cache := e.cache.insert key b }
  | withheld {e key} : e.subtypeGuard.isVisiting key = true → Turn e (e.left key)
  | aside {e} (valueGuard notifies) : Turn e { e with valueGuard, notifies }

/-- No judgment in progress has an answer yet, and no more are in progress than may be. -/
structure Tidy (e : Engine) : Prop where
  synced : e.subtypeGuard.Synced
  depth : e.subtypeGuard.depth ≤ e.subtypeGuard.limits.maxDepth.toNat
  absent : ∀ key, e.subtypeGuard.isVisiting key = true → e.cache.peek key = none

variable {e e' : Engine} {key : JudgmentKey}

theorem tidy_of_empty (h : e.subtypeGuard.Empty) : e.Tidy := by
  obtain ⟨hsynced, hdepth⟩ := Guard.empty_iff.mp h
  refine ⟨hsynced, by omega, fun key hv => ?_⟩
  rw [Guard.isVisiting_of_depth hsynced hdepth] at hv
  cases hv

theorem Tidy.of_restored (ht : e.Tidy) (hguard : e.subtypeGuard.Restored e'.subtypeGuard)
    (hcache : e'.cache.entries = e.cache.entries) : e'.Tidy where
  synced := hguard.synced ht.synced
  depth := by
    rw [hguard.depth ht.synced, hguard.limits]
    exact ht.depth
  absent key hv := by
    rw [hguard.visiting ht.synced] at hv
    rw [Cache.peek, hcache]
    exact ht.absent key hv

theorem Tidy.left (ht : e.Tidy) (hv : e.subtypeGuard.isVisiting key = true)
    (hguard : e'.subtypeGuard = e.subtypeGuard.leave key)
    (hcache : ∀ other, key ≠ other → e'.cache.peek other = e.cache.peek other) : e'.Tidy where
  synced := by
    rw [hguard]
    exact Guard.synced_leave ht.synced hv
  depth := by
    rw [hguard]
    exact (Nat.sub_le _ 1).trans ht.depth
  absent other hother := by
    rw [hguard, Guard.isVisiting_leave] at hother
    rw [hcache other hother.1]
    exact ht.absent other hother.2

theorem Tidy.begun (ht : e.Tidy) (hp : e.cache.peek key = none)
    (ha : (e.subtypeGuard.renewed.enter key).1 = .entered) : (e.begun key).Tidy := by
  have hrenewed := e.subtypeGuard.restored_renewed
  obtain ⟨hlimits, hdepth, hsynced, hvisit⟩ := Guard.entered ha
  have hlt := Guard.depth_lt_of_entered ha
  refine ⟨hsynced (hrenewed.synced ht.synced), ?_, fun other hv => ?_⟩
  · simp only [Engine.begun, tried, hlimits, hdepth]
    exact hlt
  · simp only [Engine.begun, tried, asked, Cache.peek_lookup]
    obtain rfl | hv := (hvisit other).mp hv
    · exact hp
    · rw [hrenewed.visiting ht.synced] at hv
      exact ht.absent other hv

theorem tried_limits (e : Engine) (key : JudgmentKey) : (e.tried key).subtypeGuard.limits = e.subtypeGuard.limits :=
  (Guard.enter_limits _ key).trans e.subtypeGuard.restored_renewed.limits

theorem restored_tried (ha : (e.subtypeGuard.renewed.enter key).1 ≠ .entered) :
    e.subtypeGuard.Restored (e.tried key).subtypeGuard :=
  e.subtypeGuard.restored_renewed.trans (Guard.restored_denied ha)

theorem Turn.tidy (h : Turn e e') (ht : e.Tidy) : e'.Tidy := by
  cases h with
  | found hp => exact ht.of_restored (.refl _) (e.cache.entries_lookup _)
  | assumed hp ha => exact ht.of_restored (restored_tried (by rw [ha]; decide)) (e.cache.entries_lookup _)
  | denied hp ha => exact ht.of_restored (restored_tried (Admission.ne_entered ha)) (e.cache.entries_lookup _)
  | begun hp ha => exact ht.begun hp ha
  | answered b hv => exact ht.left hv rfl fun other hne => by rw [Cache.peek_insert, if_neg hne]
  | withheld hv => exact ht.left hv rfl fun _ _ => rfl
  | aside => exact ⟨ht.synced, ht.depth, ht.absent⟩

theorem Turn.kept (hv : e.subtypeGuard.isVisiting key = true) (before : Nat) (b : Bool) :
    Turn e ((e.left key).kept key before b) := by
  obtain hkept | hkept := (e.left key).kept_cases key before b
  · rw [hkept]
    exact .withheld hv
  · rw [hkept]
    exact .answered b hv

theorem Turn.limits (h : Turn e e') : e'.subtypeGuard.limits = e.subtypeGuard.limits := by
  cases h with
  | assumed | denied | begun => exact e.tried_limits _
  | found | answered | withheld | aside => rfl

theorem Turn.appends (h : Turn e e') (ht : e.Tidy) : e.cache.Appends e'.cache := by
  cases h with
  | found | assumed | denied | begun => exact .inl (e.cache.entries_lookup _)
  | answered b hv => exact .inr ⟨_, b, ht.absent _ hv, rfl⟩
  | withheld | aside => exact .inl rfl

/-! ## Sequences of turns -/

def TurnAbove (depth : Nat) (e e' : Engine) : Prop := depth ≤ e.subtypeGuard.depth ∧ Turn e e'

theorem turns_of_above {depth : Nat} (h : ReflTransGen (TurnAbove depth) e e') : ReflTransGen Turn e e' :=
  ReflTransGen.mono (fun _ _ hturn => hturn.2) e e' h

theorem turns_above_mono {depth depth' : Nat} (hle : depth' ≤ depth) (h : ReflTransGen (TurnAbove depth) e e') :
    ReflTransGen (TurnAbove depth') e e' :=
  ReflTransGen.mono (fun _ _ hturn => ⟨hle.trans hturn.1, hturn.2⟩) e e' h

theorem tidy_of_turns (h : ReflTransGen Turn e e') (ht : e.Tidy) : e'.Tidy := by
  induction h with
  | refl => exact ht
  | tail _ hturn ih => exact hturn.tidy ih

theorem limits_of_turns (h : ReflTransGen Turn e e') : e'.subtypeGuard.limits = e.subtypeGuard.limits := by
  induction h with
  | refl => rfl
  | tail _ hturn ih => exact hturn.limits.trans ih

theorem peek_of_turns (h : ReflTransGen Turn e e') (ht : e.Tidy) {b : Bool} (hp : e.cache.peek key = some b) :
    e'.cache.peek key = some b := by
  induction h with
  | refl => exact hp
  | tail hturns hturn ih => exact (hturn.appends (tidy_of_turns hturns ht)).peek ih

/-! ## Counting what is computed -/

/-- Since there were `before` of them, no more judgments have been computed than attempts have been made and than may
be made. That is so until the count of attempts stops, which it does at the highest limit there is. -/
def Metered (before : Nat) (e : Engine) : Prop :=
  let limit := e.subtypeGuard.limits.maxIterations.toNat
  e.uncachedJudgments ≤ before + min e.subtypeGuard.iterations limit ∨
    limit = unboundedIterations ∧ e.subtypeGuard.iterations = unboundedIterations

theorem Metered.attempt {before : Nat} (hm : e.Metered before)
    (hlimits : e'.subtypeGuard.limits = e.subtypeGuard.limits)
    (hiterations : e'.subtypeGuard.iterations = min (e.subtypeGuard.iterations + 1) unboundedIterations)
    (hcomputed : e'.uncachedJudgments = e.uncachedJudgments ∨ e'.uncachedJudgments = e.uncachedJudgments + 1 ∧
      e'.subtypeGuard.iterations ≤ e.subtypeGuard.limits.maxIterations.toNat) : e'.Metered before := by
  have hlt : e.subtypeGuard.limits.maxIterations.toNat < unboundedIterations + 1 := UInt32.toNat_lt _
  unfold Metered at hm ⊢
  rw [hlimits]
  dsimp only at hm ⊢
  omega

/-- The count starts over only when nothing is in progress. -/
theorem Turn.metered {before : Nat} (h : Turn e e') (hactive : 0 < e.subtypeGuard.depth) (hm : e.Metered before) :
    e'.Metered before := by
  have hsame : e.subtypeGuard.renewed = e.subtypeGuard := by
    have htrue : e.subtypeGuard.isActive = true := by simp [Guard.isActive, Nat.ne_of_gt hactive]
    rw [Guard.renewed, htrue, if_pos rfl]
  have hiterations : ∀ key, (e.tried key).subtypeGuard.iterations =
      min (e.subtypeGuard.iterations + 1) unboundedIterations := by
    intro key
    rw [tried, Guard.enter_iterations, hsame]
  cases h with
  | found hp => exact hm
  | assumed hp ha => exact hm.attempt (e.tried_limits _) (hiterations _) (.inl rfl)
  | denied hp ha => exact hm.attempt (e.tried_limits _) (hiterations _) (.inl rfl)
  | @begun key hp ha =>
    have hle := Guard.iterations_le_of_entered ha
    rw [hsame] at hle
    refine hm.attempt (e.tried_limits key) (hiterations key) (.inr ⟨rfl, ?_⟩)
    exact (hiterations key).trans_le hle
  | answered b hv => exact hm
  | withheld hv => exact hm
  | aside => exact hm

theorem metered_of_turns {before depth : Nat} (h : ReflTransGen (TurnAbove (depth + 1)) e e') (hm : e.Metered before) :
    e'.Metered before := by
  induction h with
  | refl => exact hm
  | tail _ hturn ih => exact hturn.2.metered (Nat.lt_of_lt_of_le (Nat.succ_pos depth) hturn.1) ih

end Engine

end TypeContracts
