import TypeContracts.Proofs.Compatibility.Ending
import TypeContracts.Proofs.Engine.Work

/-!
# The work behind a judgment

What is asked on the way to an answer is about handles that can be reached, so
an engine that is new holds no more keys at a time than there are pairs of these
(`Numbered.held_le`). A judgment may get a second key when the counter of
identities wraps, which it does once for all of its numbers. What is computed is
covered by the answers in the cache and by the assumptions made (`works_judge`).
-/

namespace TypeContracts.Compatibility

section
variable {K : Set Judgment} {S : Set Handle} {s s' : Context} {j : Judgment} {key : JudgmentKey} {ids : Identities}

/-- Keys held that stand for no judgment of `K`. -/
def lost (K : Set Judgment) (s : Context) : Set JudgmentKey :=
  { key ∈ s.engine.held | ∀ j ∈ K, ¬ s.identities.IsKey key j }

/-- A key is lost each time that the counter has gone through its numbers, and these have gone to handles of `S`. -/
structure Numbered (K : Set Judgment) (S : Set Handle) (s : Context) : Prop where
  tidy : s.engine.Tidy
  few : (lost K s).ncard * (UInt32.size - 1) + s.identities.demand S ≤ S.ncard + (UInt32.size - 1)

theorem Numbered.held_le (hs : Numbered K S s) (hK : K.Finite) (hS : 0 < S.ncard) :
    s.engine.subtypeGuard.depth + s.engine.cache.size ≤ K.ncard + S.ncard := by
  obtain ⟨hfinite, hcount⟩ := hs.tidy.ncard_held
  have hle : s.engine.held.ncard ≤ K.ncard + (lost K s).ncard := s.identities.ncard_keys_le hK hfinite
  have hfew := hs.few
  simp only [UInt32.size] at hfew
  omega

theorem numbered_create (hS : S.Finite) (options : Options) (identities : Identities) (journal : Log.Journal) :
    Numbered K S ⟨.create options, identities, journal⟩ := by
  have hlost : lost K ⟨.create options, identities, journal⟩ = ∅ := by
    refine Set.eq_empty_of_forall_notMem fun key hkey => ?_
    have hheld := hkey.1
    rw [Engine.held_create] at hheld
    exact hheld
  refine ⟨Engine.tidy_of_empty ⟨rfl, rfl⟩, ?_⟩
  rw [hlost, Set.ncard_empty, Nat.zero_mul, Nat.zero_add]
  exact identities.demand_le hS

theorem Numbered.of_held (hs : Numbered K S s) (ht : s'.engine.Tidy) (hheld : s'.engine.held ⊆ s.engine.held)
    (hids : s.identities.Grows s'.identities) (hdemand : s'.identities.demand S ≤ s.identities.demand S) :
    Numbered K S s' := by
  have hsub : lost K s' ⊆ lost K s := by
    intro key hkey
    exact ⟨hheld hkey.1, fun j hj hk => hkey.2 j hj (hk.grows hids)⟩
  have hle := Set.ncard_le_ncard hsub (hs.tidy.ncard_held.1.subset fun key h => h.1)
  refine ⟨ht, (Nat.add_le_add (Nat.mul_le_mul_right _ hle) hdemand).trans hs.few⟩

section
variable (hS : S.Finite) (hbetween : j ∈ between S) (hk : s.identities.keyed j = (key, ids))
include hS hbetween hk

theorem Numbered.not_begun (hs : Numbered K S s) {e : Engine} (ht : e.Tidy)
    (hguard : s.engine.subtypeGuard.Restored e.subtypeGuard) (hcache : e.cache.entries = s.engine.cache.entries)
    (journal : Log.Journal) : Numbered K S ⟨e, ids, journal⟩ := by
  have hids := s.identities.grows_keyed j
  have hdemand := Identities.demand_keyed hS s.identities hbetween.1 hbetween.2
  rw [hk] at hids hdemand
  refine hs.of_held ht (Engine.held_of_restored hs.tidy.synced hguard hcache).subset hids ?_
  obtain ⟨-, hsame⟩ | hless := hdemand
  · exact hsame.le
  · exact Nat.le_of_add_right_le hless

theorem Numbered.begun (hs : Numbered K S s) (hj : j ∈ K) (hp : s.engine.cache.peek key = none)
    (ha : (s.engine.subtypeGuard.renewed.enter key).1 = .entered) (journal : Log.Journal) :
    Numbered K S ⟨s.engine.begun key, ids, journal⟩ := by
  have hids := s.identities.grows_keyed j
  have hdemand := Identities.demand_keyed hS s.identities hbetween.1 hbetween.2
  rw [hk] at hids hdemand
  have hfinite : (lost K s).Finite := hs.tidy.ncard_held.1.subset fun key h => h.1
  have hbefore : ∀ other ∈ lost K ⟨s.engine.begun key, ids, journal⟩, other ≠ key → other ∈ lost K s := by
    intro other ⟨hheld, hother⟩ hne
    rw [Engine.held_begun hs.tidy.synced ha] at hheld
    exact ⟨hheld.resolve_left hne, fun j' hj' hk' => hother j' hj' (hk'.grows hids)⟩
  refine ⟨hs.tidy.begun hp ha, ?_⟩
  have hfew := hs.few
  obtain ⟨hkey, hsame⟩ | hless := hdemand
  · have hsub : lost K ⟨s.engine.begun key, ids, journal⟩ ⊆ lost K s := by
      intro other hother
      refine hbefore other hother fun heq => ?_
      exact hother.2 j hj (heq ▸ hkey)
    have hle := Set.ncard_le_ncard hsub hfinite
    rw [hsame]
    exact (Nat.add_le_add_right (Nat.mul_le_mul_right _ hle) _).trans hfew
  · have hsub : lost K ⟨s.engine.begun key, ids, journal⟩ ⊆ insert key (lost K s) := by
      intro other hother
      by_cases heq : other = key
      · exact .inl heq
      · exact .inr (hbefore other hother heq)
    have hle := (Set.ncard_le_ncard hsub (hfinite.insert key)).trans (Set.ncard_insert_le key _)
    calc (lost K ⟨s.engine.begun key, ids, journal⟩).ncard * (UInt32.size - 1) + ids.demand S
        ≤ ((lost K s).ncard + 1) * (UInt32.size - 1) + ids.demand S :=
          Nat.add_le_add_right (Nat.mul_le_mul_right _ hle) _
      _ = (lost K s).ncard * (UInt32.size - 1) + (ids.demand S + (UInt32.size - 1)) := by
          rw [Nat.succ_mul, Nat.add_assoc, Nat.add_comm (UInt32.size - 1)]
      _ ≤ (lost K s).ncard * (UInt32.size - 1) + s.identities.demand S := Nat.add_le_add_left hless _
      _ ≤ S.ncard + (UInt32.size - 1) := hfew

end

end

/-! ## Answers -/

/-- On the way from `s` to `s'` something was answered, and what that took is covered. -/
structure Worked (K : Set Judgment) (S : Set Handle) (B : Nat) (s s' : Context) : Prop where
  numbered : Numbered K S s'
  guard : s.engine.subtypeGuard.Restored s'.engine.subtypeGuard
  covers : s.engine.Covers (B - s.engine.subtypeGuard.depth) s'.engine

def Works (K : Set Judgment) (S : Set Handle) (B : Nat) (m : Check Bool) : Prop :=
  ∀ s, Numbered K S s → Leads m s (fun _ s' => Worked K S B s s') fun _ => True

section
variable {K : Set Judgment} {S : Set Handle} {B : Nat}

theorem works_compositional : Compositional Set.univ (Works K S B) where
  pure b s hs := ⟨hs, .refl _, .refl _ _⟩
  throw _ s hs := trivial
  bind {m f} hm hf s hs := by
    refine (hm s hs).bind fun b s₁ h₁ => (hf b s₁ h₁.numbered).imp fun b' s₂ h₂ => ?_
    have hcovers := h₂.covers
    rw [h₁.guard.depth hs.tidy.synced] at hcovers
    exact ⟨h₂.numbered, h₁.guard.trans h₂.guard, h₁.covers.trans hcovers⟩

theorem works_judge (hS : S.Finite) (hB : ∀ s, Numbered K S s → s.engine.subtypeGuard.depth ≤ B) {j : Judgment}
    {m : Check Bool} (hm : Works K S B m) (hj : j ∈ K) (hbetween : j ∈ between S) : Works K S B (Check.judge j m) := by
  intro s hs
  have hrenewed := s.engine.subtypeGuard.restored_renewed
  have hjudged := Check.judge_judged j m s
  unfold Leads
  generalize Check.judge j m s = r at hjudged ⊢
  cases hjudged with
  | @hit key ids b journal hk hp =>
    have ht := (Engine.Turn.found hp).tidy hs.tidy
    exact ⟨hs.not_begun hS hbetween hk ht (.refl _) (s.engine.cache.entries_lookup key) journal, .refl _, .found hp⟩
  | @assumed key ids journal hk hp ha =>
    have ht := (Engine.Turn.assumed hp ha).tidy hs.tidy
    have hguard : s.engine.subtypeGuard.Restored (s.engine.tried key).subtypeGuard :=
      Engine.restored_tried (by rw [ha]; decide)
    exact ⟨hs.not_begun hS hbetween hk ht hguard (s.engine.cache.entries_lookup key) journal, hguard, .assumed hp⟩
  | denied journal hk hp ha => trivial
  | @computed key ids b s' journal journal' hk hp ha hr =>
    have hbegun := hs.begun hS hbetween hk hj hp ha journal
    obtain ⟨hinner, hguard, hcovers⟩ := (hm _ hbegun).ok hr
    obtain ⟨-, hdepth, -, hvisit⟩ := Guard.entered ha
    have hv : s'.engine.subtypeGuard.isVisiting key = true := by
      rw [hguard.visiting hbegun.tidy.synced]
      exact (hvisit key).mpr (.inl rfl)
    have hone : (s.engine.begun key).subtypeGuard.depth = s.engine.subtypeGuard.depth + 1 :=
      hdepth.trans (congrArg (· + 1) (hrenewed.depth hs.tidy.synced))
    -- the judgment itself is one of those in progress when an assumption is made
    have hlevel : B - s.engine.subtypeGuard.depth = B - (s.engine.begun key).subtypeGuard.depth + 1 := by
      have hle : (s.engine.begun key).subtypeGuard.depth ≤ B := hB _ hbegun
      omega
    refine ⟨?_, ?_, hlevel ▸ hcovers.computed hinner.tidy hv b⟩
    · exact hinner.of_held ((Engine.Turn.kept hv _ b).tidy hinner.tidy) (Engine.held_left hv _ b) (.refl _) (Nat.le_refl _)
    · rw [Engine.kept_subtypeGuard]
      exact hrenewed.trans (Guard.restored_leave ha hguard)
  | failed journal hk hp ha hr => trivial

theorem works_resolve {c : Catalog} {Q : Set Judgment} (hS : S.Finite) (hQ : AskClosed c Q) (hQS : Q ⊆ between S)
    (hB : ∀ s, Numbered { j ∈ Q | isReflexive j = false } S s → s.engine.subtypeGuard.depth ≤ B) {j : Judgment}
    (hj : j ∈ Q) : Works { j ∈ Q | isReflexive j = false } S B (resolve c j) := by
  intro s hs
  refine resolveWithin_of_judge (P := fun _ m => Works { j ∈ Q | isReflexive j = false } S B m) hQ
    (fun _ => works_compositional.pure true) ?_ ?_ _ hj s hs
  · intro j ask hj hr ha
    exact works_judge hS hB (rule_of_asked works_compositional _ ha (Set.subset_univ _)) ⟨hj, hr⟩ (hQS hj)
  · intro j hj hr
    exact works_judge hS hB (works_compositional.throw (Set.mem_univ _)) ⟨hj, hr⟩ (hQS hj)

end

end TypeContracts.Compatibility
