import Mathlib.Data.Set.Card
import TypeContracts.Engine.Judgment

/-!
# Identities tell descriptors apart

As long as the counter has not run out of numbers, no two handles have the
same identity (`Sound`), so a key stands for one judgment. Identities are only
ever added (`Grows`).
-/

namespace TypeContracts.Identities

variable {ids later : Identities} {g h : Handle} {i : Identity} {j j' : Judgment} {key : JudgmentKey}

def HasRoom (ids : Identities) : Prop := ids.assigned.size < UInt32.size - 1

instance (ids : Identities) : Decidable ids.HasRoom := inferInstanceAs (Decidable (_ < _))

/-- The counter has never wrapped, and each of its numbers has gone to one handle. -/
structure Sound (ids : Identities) : Prop where
  next : ids.next.toNat = ids.assigned.size
  below : ∀ {h i}, ids.find? h = some i → i.number < ids.next
  distinct : ∀ {g h i}, ids.find? g = some i → ids.find? h = some i → g = h

structure Grows (ids later : Identities) : Prop where
  keeps : ∀ {h i}, ids.find? h = some i → later.find? h = some i
  size : ids.assigned.size ≤ later.assigned.size

theorem Grows.refl (ids : Identities) : Grows ids ids := ⟨id, Nat.le_refl _⟩

theorem Grows.trans {last : Identities} (h₁ : Grows ids later) (h₂ : Grows later last) : Grows ids last :=
  ⟨fun h => h₂.keeps (h₁.keeps h), Nat.le_trans h₁.size h₂.size⟩

theorem Grows.hasRoom (hg : Grows ids later) (hr : later.HasRoom) : ids.HasRoom :=
  Nat.lt_of_le_of_lt hg.size hr

/-! ## Drawing identities -/

theorem contains_code (ids : Identities) (h : Handle) : ids.assigned.contains h.code = (ids.find? h).isSome := by
  simp [find?]

theorem assign_new (hn : ids.find? h = none) : ids.assign h = (⟨ids.next⟩, ⟨ids.next + 1,
    if (⟨ids.next⟩ : Identity).isValid then ids.assigned.insert h.code ⟨ids.next⟩ else ids.assigned⟩) := by
  simp [assign, hn]

theorem grows_assign (ids : Identities) (h : Handle) : Grows ids (ids.assign h).2 := by
  refine ⟨fun hf => find?_assign_of_some hf h, ?_⟩
  cases hn : ids.find? h with
  | some i => exact Nat.le_of_eq (by rw [assign_of_some hn])
  | none =>
    rw [assign_new hn]
    dsimp only
    split
    · exact Std.TreeMap.size_le_size_insert
    · exact Nat.le_refl _

theorem assign_eq (hs : ids.Sound) (hn : ids.find? h = none) (hr : ids.HasRoom) :
    ids.assign h = (⟨ids.next⟩, ⟨ids.next + 1, ids.assigned.insert h.code ⟨ids.next⟩⟩) ∧
      ids.next.toNat + 1 < UInt32.size := by
  have hlt : ids.next.toNat < UInt32.size - 1 := hs.next ▸ hr
  have hv : (⟨ids.next⟩ : Identity).isValid = true := by
    have hne : ids.next ≠ 0xFFFFFFFF := fun e => by rw [e] at hlt; exact absurd hlt (by decide)
    simpa [Identity.isValid, Identity.invalid] using hne
  exact ⟨by rw [assign_new hn, if_pos hv], by omega⟩

theorem find?_insert (next : UInt32) (h g : Handle) (i : Identity) :
    (⟨next, ids.assigned.insert h.code i⟩ : Identities).find? g = if h = g then some i else ids.find? g := by
  have hc : (h.code = g.code) = (h = g) := propext ⟨Handle.code_inj, congrArg _⟩
  simp [find?, Std.TreeMap.getElem?_insert, hc]

theorem sound_empty : Sound {} where
  next := rfl
  below := by simp [find?]
  distinct := by simp [find?]

/-- The last number that can be drawn may be drawn. -/
theorem Sound.assign_of_hasRoom (hs : ids.Sound) (hr : ids.HasRoom) : (ids.assign h).2.Sound := by
  cases hn : ids.find? h with
  | some i => rw [assign_of_some hn]; exact hs
  | none =>
    obtain ⟨he, hlt⟩ := assign_eq hs hn hr
    have hnext : (ids.next + 1).toNat = ids.next.toNat + 1 := by
      rw [UInt32.toNat_add]; exact Nat.mod_eq_of_lt hlt
    -- numbers given out so far are below the counter
    have hnew : ∀ {g i}, ids.find? g = some i → i ≠ ⟨ids.next⟩ := fun hg e => by
      have hb := hs.below hg
      rw [e] at hb
      exact UInt32.lt_irrefl _ hb
    rw [he]
    refine ⟨?_, ?_, ?_⟩
    · simp [Std.TreeMap.size_insert, contains_code, hn, hnext, hs.next]
    · intro g i hg
      rw [find?_insert] at hg
      have hlt' : ids.next < ids.next + 1 := UInt32.lt_iff_toNat_lt.mpr (by omega)
      split at hg
      · cases hg; exact hlt'
      · exact UInt32.lt_trans (hs.below hg) hlt'
    · intro g g' i hg hg'
      rw [find?_insert] at hg hg'
      split at hg <;> split at hg'
      · simp_all
      · cases hg; exact absurd rfl (hnew hg')
      · cases hg'; exact absurd rfl (hnew hg)
      · exact hs.distinct hg hg'

theorem find?_assign_of_hasRoom (hs : ids.Sound) (hr : ids.HasRoom) :
    (ids.assign h).2.find? h = some (ids.assign h).1 := by
  cases hn : ids.find? h with
  | some i => rw [assign_of_some hn]; exact hn
  | none =>
    rw [(assign_eq hs hn hr).1, find?_insert, if_pos rfl]

theorem Sound.assign (hs : ids.Sound) (hr : (ids.assign h).2.HasRoom) : (ids.assign h).2.Sound :=
  hs.assign_of_hasRoom ((grows_assign ids h).hasRoom hr)

theorem find?_assign_self (hs : ids.Sound) (hr : (ids.assign h).2.HasRoom) :
    (ids.assign h).2.find? h = some (ids.assign h).1 :=
  find?_assign_of_hasRoom hs ((grows_assign ids h).hasRoom hr)

/-! ## Keys of judgments -/

structure IsKey (ids : Identities) (key : JudgmentKey) (j : Judgment) : Prop where
  kind : key.kind = j.kind
  source : ids.find? j.source = some key.source
  target : ids.find? j.target = some key.target

theorem IsKey.grows (hk : ids.IsKey key j) (hg : Grows ids later) : later.IsKey key j :=
  ⟨hk.kind, hg.keeps hk.source, hg.keeps hk.target⟩

theorem eq_of_handles (hk : j.kind = j'.kind) (hs : j.source = j'.source) (ht : j.target = j'.target) : j = j' := by
  cases j <;> cases j' <;> simp_all [Judgment.kind, Judgment.source, Judgment.target]

/-- A key stands for one judgment. -/
theorem Sound.eq_of_isKey (hs : ids.Sound) (h₁ : ids.IsKey key j) (h₂ : ids.IsKey key j') : j = j' :=
  eq_of_handles (h₁.kind.symm.trans h₂.kind) (hs.distinct h₁.source h₂.source) (hs.distinct h₁.target h₂.target)

/-- Keys that stand for judgments are no more than these. -/
theorem ncard_keys_le (ids : Identities) {K : Set Judgment} (hK : K.Finite) {X : Set JudgmentKey} (hX : X.Finite) :
    X.ncard ≤ K.ncard + { key ∈ X | ∀ j ∈ K, ¬ ids.IsKey key j }.ncard := by
  let keyFor (j : Judgment) : JudgmentKey :=
    ⟨j.kind, (ids.find? j.source).getD default, (ids.find? j.target).getD default⟩
  have hsplit : X ⊆ keyFor '' K ∪ { key ∈ X | ∀ j ∈ K, ¬ ids.IsKey key j } := by
    intro key hkey
    by_cases hstands : ∃ j ∈ K, ids.IsKey key j
    · obtain ⟨j, hj, hk⟩ := hstands
      refine .inl ⟨j, hj, ?_⟩
      simp only [keyFor, hk.source, hk.target, ← hk.kind, Option.getD_some]
    · exact .inr ⟨hkey, fun j hj hk => hstands ⟨j, hj, hk⟩⟩
  have hrest : { key ∈ X | ∀ j ∈ K, ¬ ids.IsKey key j }.Finite := hX.subset fun _ h => h.1
  calc X.ncard ≤ (keyFor '' K ∪ { key ∈ X | ∀ j ∈ K, ¬ ids.IsKey key j }).ncard :=
        Set.ncard_le_ncard hsplit ((hK.image _).union hrest)
    _ ≤ (keyFor '' K).ncard + { key ∈ X | ∀ j ∈ K, ¬ ids.IsKey key j }.ncard := Set.ncard_union_le _ _
    _ ≤ K.ncard + { key ∈ X | ∀ j ∈ K, ¬ ids.IsKey key j }.ncard := Nat.add_le_add_right (Set.ncard_image_le hK) _

/-- The key of a judgment, and the identities after those of its source and target are drawn. -/
def keyed (ids : Identities) (j : Judgment) : JudgmentKey × Identities :=
  let (source, ids) := ids.assign j.source
  let (target, ids) := ids.assign j.target
  (⟨j.kind, source, target⟩, ids)

theorem grows_keyed (ids : Identities) (j : Judgment) : Grows ids (ids.keyed j).2 :=
  (grows_assign ids j.source).trans (grows_assign _ j.target)

theorem Sound.keyed (hs : ids.Sound) (hr : (ids.keyed j).2.HasRoom) :
    (ids.keyed j).2.Sound ∧ (ids.keyed j).2.IsKey (ids.keyed j).1 j := by
  have hr₁ : (ids.assign j.source).2.HasRoom := (grows_assign _ j.target).hasRoom hr
  have hs₁ := hs.assign hr₁
  refine ⟨hs₁.assign hr, rfl, ?_, find?_assign_self hs₁ hr⟩
  exact (grows_assign _ j.target).keeps (find?_assign_self hs hr₁)

/-- A key that is made again is the same, and nothing is drawn for it. -/
theorem IsKey.keyed_eq (h : ids.IsKey key j) : ids.keyed j = (key, ids) := by
  unfold Identities.keyed
  rw [assign_of_some h.source]
  dsimp only
  rw [assign_of_some h.target, ← h.kind]

/-! ## Counters that wrap -/

/-- The numbers that the counter is past, and those that these handles still need. -/
noncomputable def demand (ids : Identities) (S : Set Handle) : Nat :=
  ids.next.toNat + { g ∈ S | ids.find? g = none }.ncard

/-- The counter has numbers left for all of these handles that are without. -/
def Serves (ids : Identities) (S : Set Handle) : Prop :=
  ids.next.toNat + { g ∈ S | ids.find? g = none }.ncard < UInt32.size

section
variable {S : Set Handle} (hS : S.Finite)
include hS

theorem demand_le (ids : Identities) : ids.demand S ≤ S.ncard + (UInt32.size - 1) := by
  have hlt : ids.next.toNat < UInt32.size := ids.next.toNat_lt
  have hle : { g ∈ S | ids.find? g = none }.ncard ≤ S.ncard := Set.ncard_le_ncard (fun _ hg => hg.1) hS
  unfold demand
  omega

/-- A handle takes the number that it needs, and the counter goes past it. Or the counter wraps, and the handle is
still without. -/
theorem demand_assign (ids : Identities) (hg : g ∈ S) :
    (ids.assign g).2.find? g = some (ids.assign g).1 ∧ (ids.assign g).2.demand S = ids.demand S ∨
      (ids.assign g).2.demand S + (UInt32.size - 1) = ids.demand S ∧ 0 < (ids.assign g).2.demand S := by
  cases hn : ids.find? g with
  | some i =>
    rw [assign_of_some hn]
    exact .inl ⟨hn, rfl⟩
  | none =>
    have hmem : g ∈ { g' ∈ S | ids.find? g' = none } := ⟨hg, hn⟩
    have hfin : { g' ∈ S | ids.find? g' = none }.Finite := hS.subset fun _ h => h.1
    have hcount := Set.ncard_sdiff_singleton_add_one hmem hfin
    rw [assign_new hn]
    by_cases hvalid : (⟨ids.next⟩ : Identity).isValid = true
    · have hrest : { g' ∈ S | (if g = g' then some (⟨ids.next⟩ : Identity) else ids.find? g') = none } =
          { g' ∈ S | ids.find? g' = none } \ {g} := by
        ext g'
        by_cases hgg : g = g'
        · simp [hgg]
        · simp [hgg, Ne.symm hgg]
      have hne : ids.next ≠ 0xFFFFFFFF := by simpa [Identity.isValid, Identity.invalid] using hvalid
      have hlt : ids.next.toNat + 1 < UInt32.size := by
        have hlt : ids.next.toNat < UInt32.size := ids.next.toNat_lt
        have hne : ids.next.toNat ≠ (0xFFFFFFFF : UInt32).toNat := fun h => hne (UInt32.toNat_inj.mp h)
        simp only [UInt32.reduceToNat, UInt32.size] at hlt hne ⊢
        omega
      have hnext : (ids.next + 1).toNat = ids.next.toNat + 1 := by
        rw [UInt32.toNat_add]
        exact Nat.mod_eq_of_lt hlt
      rw [if_pos hvalid]
      refine .inl ⟨by rw [find?_insert, if_pos rfl], ?_⟩
      simp only [demand, find?_insert, hrest, hnext]
      omega
    · have hlast : ids.next = 0xFFFFFFFF := by simpa [Identity.isValid, Identity.invalid] using hvalid
      have hpos : 0 < { g' ∈ S | ids.find? g' = none }.ncard := (Set.ncard_pos hfin).mpr ⟨g, hmem⟩
      have hwrapped : (⟨0, ids.assigned⟩ : Identities).demand S = { g' ∈ S | ids.find? g' = none }.ncard :=
        Nat.zero_add _
      rw [if_neg hvalid, hlast, show (0xFFFFFFFF + 1 : UInt32) = 0 from rfl, hwrapped, demand, hlast]
      exact .inr ⟨Nat.add_comm _ _, hpos⟩

theorem demand_keyed (ids : Identities) (hs : j.source ∈ S) (ht : j.target ∈ S) :
    (ids.keyed j).2.IsKey (ids.keyed j).1 j ∧ (ids.keyed j).2.demand S = ids.demand S ∨
      (ids.keyed j).2.demand S + (UInt32.size - 1) ≤ ids.demand S := by
  obtain ⟨hsource, hsame⟩ | ⟨hlost, -⟩ := demand_assign hS ids hs
  · obtain ⟨htarget, hsame'⟩ | ⟨hlost, -⟩ := demand_assign hS (ids.assign j.source).2 ht
    · exact .inl ⟨⟨rfl, (grows_assign _ j.target).keeps hsource, htarget⟩, hsame'.trans hsame⟩
    · exact .inr (hsame ▸ hlost.le)
  · have hless : ((ids.assign j.source).2.assign j.target).2.demand S ≤ (ids.assign j.source).2.demand S := by
      obtain ⟨-, hsame⟩ | ⟨hlost, -⟩ := demand_assign hS (ids.assign j.source).2 ht
      · exact hsame.le
      · omega
    exact .inr (hlost ▸ Nat.add_le_add_right hless _)

theorem Serves.assign (hserves : ids.Serves S) (hg : g ∈ S) :
    (ids.assign g).2.Serves S ∧ (ids.assign g).2.find? g = some (ids.assign g).1 := by
  change ids.demand S < UInt32.size at hserves
  obtain ⟨hfound, hsame⟩ | ⟨hlost, hpos⟩ := demand_assign hS ids hg
  · exact ⟨hsame.trans_lt hserves, hfound⟩
  · omega

/-- A number is lost only when the counter wraps, and it then starts over. -/
theorem found_or_serves (hcard : S.ncard < UInt32.size) (ids : Identities) (g : Handle) :
    (ids.assign g).2.find? g = some (ids.assign g).1 ∨ (ids.assign g).2.Serves S := by
  cases hn : ids.find? g with
  | some i =>
    rw [assign_of_some hn]
    exact .inl hn
  | none =>
    rw [assign_new hn]
    by_cases hvalid : (⟨ids.next⟩ : Identity).isValid = true
    · rw [if_pos hvalid]
      exact .inl (by rw [find?_insert, if_pos rfl])
    · have hlast : ids.next = 0xFFFFFFFF := by simpa [Identity.isValid, Identity.invalid] using hvalid
      refine .inr ?_
      simp only [Serves, hlast]
      refine Nat.lt_of_le_of_lt ?_ hcard
      simpa using Set.ncard_le_ncard (fun g hg => hg.1) hS

theorem Serves.keyed (hserves : ids.Serves S) (hs : j.source ∈ S) (ht : j.target ∈ S) :
    (ids.keyed j).2.Serves S ∧ (ids.keyed j).2.IsKey (ids.keyed j).1 j := by
  obtain ⟨hserves₁, hsource⟩ := hserves.assign hS hs
  obtain ⟨hserves₂, htarget⟩ := hserves₁.assign hS ht
  exact ⟨hserves₂, rfl, (grows_assign _ j.target).keeps hsource, htarget⟩

theorem isKey_or_serves (hcard : S.ncard < UInt32.size) (ids : Identities) (ht : j.target ∈ S) :
    (ids.keyed j).2.IsKey (ids.keyed j).1 j ∨ (ids.keyed j).2.Serves S := by
  obtain hsource | hserves := found_or_serves hS hcard ids j.source
  · obtain htarget | hserves := found_or_serves hS hcard (ids.assign j.source).2 j.target
    · exact .inl ⟨rfl, (grows_assign _ j.target).keeps hsource, htarget⟩
    · exact .inr hserves
  · exact .inr (hserves.assign hS ht).1

end

end TypeContracts.Identities
