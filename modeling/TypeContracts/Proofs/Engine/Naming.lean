import TypeContracts.Proofs.Engine.Judging

/-!
# What an engine knows apart from numbers

Keys are made of identities, and these depend on what has been asked before,
also of other engines. Two guards or two caches are alike if each, read by the
names of its own, holds the same about the same things, and what is done to
both under the names of one thing keeps them so. Of two collections of
identities one shadows the other if it has identities for all that the other
has some for; then the other has room whenever the one has.
-/

namespace TypeContracts

/-! ## Names -/

/-- Names for some things, none of them for two. -/
structure Naming (α κ : Type) where
  name? : α → Option κ
  distinct : ∀ {a b k}, name? a = some k → name? b = some k → a = b

namespace Naming

variable {α β κ : Type} {n n' m m' : Naming α κ} {p p' : κ → Set β}

def Extends (n m : Naming α κ) : Prop := ∀ {a k}, n.name? a = some k → m.name? a = some k

/-- Two tables, each by its own names, list the same about the same things, and nothing else. -/
structure Matches (n n' : Naming α κ) (p p' : κ → Set β) : Prop where
  named : ∀ {k b}, b ∈ p k → ∃ a, n.name? a = some k
  named' : ∀ {k b}, b ∈ p' k → ∃ a, n'.name? a = some k
  same : ∀ a b, (∃ k, n.name? a = some k ∧ b ∈ p k) ↔ ∃ k, n'.name? a = some k ∧ b ∈ p' k

theorem matches_empty (n n' : Naming α κ) : Matches n n' (fun _ => (∅ : Set β)) fun _ => ∅ :=
  ⟨fun h => h.elim, fun h => h.elim, by simp⟩

theorem Matches.entry_eq (h : Matches n n' p p') {a : α} {k k' : κ} (ha : n.name? a = some k)
    (ha' : n'.name? a = some k') : p k = p' k' := by
  ext b
  have hsame := h.same a b
  simpa [ha, ha'] using hsame

theorem Extends.exists_iff (hn : n.Extends m) (hnamed : ∀ {k b}, b ∈ p k → ∃ a, n.name? a = some k) (a : α) (b : β) :
    (∃ k, m.name? a = some k ∧ b ∈ p k) ↔ ∃ k, n.name? a = some k ∧ b ∈ p k := by
  constructor
  · intro ⟨k, hk, hb⟩
    obtain ⟨a', ha'⟩ := hnamed hb
    have heq : a' = a := m.distinct (hn ha') hk
    exact ⟨k, heq ▸ ha', hb⟩
  · intro ⟨k, hk, hb⟩
    exact ⟨k, hn hk, hb⟩

theorem Matches.extend (h : Matches n n' p p') (hn : n.Extends m) (hn' : n'.Extends m') : Matches m m' p p' where
  named hb := (h.named hb).imp fun _ => hn
  named' hb := (h.named' hb).imp fun _ => hn'
  same a b := by rw [hn.exists_iff h.named, hn'.exists_iff h.named', h.same]

theorem exists_update_iff [DecidableEq κ] {a : α} {k : κ} (ha : n.name? a = some k) (r : Set β) (x : α) (b : β) :
    (∃ i, n.name? x = some i ∧ b ∈ Function.update p k r i) ↔
      x = a ∧ b ∈ r ∨ x ≠ a ∧ ∃ i, n.name? x = some i ∧ b ∈ p i := by
  by_cases hx : x = a
  · subst hx
    simp [ha]
  · simp only [hx, false_and, ne_eq, not_false_eq_true, true_and, false_or]
    refine exists_congr fun i => and_congr_right fun hi => ?_
    have hne : i ≠ k := by
      intro heq
      subst heq
      exact hx (n.distinct hi ha)
    rw [Function.update_of_ne hne]

theorem named_update [DecidableEq κ] (hnamed : ∀ {k b}, b ∈ p k → ∃ a, n.name? a = some k) {a : α} {k : κ}
    (ha : n.name? a = some k) (r : Set β) {i : κ} {b : β} (hb : b ∈ Function.update p k r i) :
    ∃ a, n.name? a = some i := by
  by_cases hi : i = k
  · subst hi
    exact ⟨a, ha⟩
  · rw [Function.update_of_ne hi] at hb
    exact hnamed hb

theorem Matches.update [DecidableEq κ] (h : Matches n n' p p') {a : α} {k k' : κ} (ha : n.name? a = some k)
    (ha' : n'.name? a = some k') (r : Set β) : Matches n n' (Function.update p k r) (Function.update p' k' r) where
  named := named_update h.named ha r
  named' := named_update h.named' ha' r
  same x b := by rw [exists_update_iff ha, exists_update_iff ha', h.same]

end Naming

/-! ## Guards -/

namespace Guard

variable {α κ : Type} [Ord κ] {n n' m m' : Naming α κ} {g g' : Guard κ}

def progress (g : Guard κ) (key : κ) : Set Unit := { _u | g.isVisiting key = true }

structure Alike (n n' : Naming α κ) (g g' : Guard κ) : Prop where
  limits : g'.limits = g.limits
  depth : g'.depth = g.depth
  iterations : g'.iterations = g.iterations
  progress : n.Matches n' g.progress g'.progress

theorem Alike.extend (h : Alike n n' g g') (hn : n.Extends m) (hn' : n'.Extends m') : Alike m m' g g' :=
  ⟨h.limits, h.depth, h.iterations, h.progress.extend hn hn'⟩

theorem alike_reset (n n' : Naming α κ) (hlimits : g'.limits = g.limits) : Alike n n' g.reset g'.reset := by
  have hempty : ∀ g : Guard κ, g.reset.progress = fun _ => ∅ := by
    intro g
    funext key
    simp [Guard.progress, reset, isVisiting]
  refine ⟨hlimits, rfl, rfl, ?_⟩
  rw [hempty, hempty]
  exact Naming.matches_empty n n'

theorem Alike.renewed (h : Alike n n' g g') : Alike n n' g.renewed g'.renewed := by
  unfold Guard.renewed Guard.isActive
  rw [h.depth]
  split
  · exact h
  · exact alike_reset n n' h.limits

theorem Alike.count (h : Alike n n' g g') : Alike n n' g.count g'.count :=
  ⟨h.limits, h.depth, congrArg (min (· + 1) unboundedIterations) h.iterations, h.progress⟩

section
variable {a : α} {key key' : κ} (h : Alike n n' g g') (ha : n.name? a = some key) (ha' : n'.name? a = some key')
include h ha ha'

theorem Alike.isVisiting : g'.isVisiting key' = g.isVisiting key := by
  have heq := Set.ext_iff.mp (h.progress.entry_eq ha ha') ()
  exact Bool.eq_iff_iff.mpr heq.symm

theorem Alike.admission : g'.admission key' = g.admission key := by
  unfold Guard.admission
  rw [h.limits, h.depth, h.iterations, h.isVisiting ha ha']

variable [Std.TransOrd κ] [Std.LawfulEqOrd κ] [DecidableEq κ]

theorem Alike.begin : Alike n n' (g.begin key) (g'.begin key') := by
  have hprogress : ∀ (g : Guard κ) key, (g.begin key).progress = Function.update g.progress key Set.univ := by
    intro g key
    funext other
    by_cases ho : other = key
    · subst ho
      ext u
      simp [Guard.progress, isVisiting_begin]
    · rw [Function.update_of_ne ho]
      ext u
      simp [Guard.progress, isVisiting_begin, Ne.symm ho]
  refine ⟨h.limits, congrArg (· + 1) h.depth, h.iterations, ?_⟩
  rw [hprogress, hprogress]
  exact h.progress.update ha ha' _

theorem Alike.leave : Alike n n' (g.leave key) (g'.leave key') := by
  have hprogress : ∀ (g : Guard κ) key, (g.leave key).progress = Function.update g.progress key ∅ := by
    intro g key
    funext other
    by_cases ho : other = key
    · subst ho
      ext u
      simp [Guard.progress, isVisiting_leave]
    · rw [Function.update_of_ne ho]
      ext u
      simp [Guard.progress, isVisiting_leave, Ne.symm ho]
  refine ⟨h.limits, congrArg (· - 1) h.depth, h.iterations, ?_⟩
  rw [hprogress, hprogress]
  exact h.progress.update ha ha' _

theorem Alike.enter : (g'.enter key').1 = (g.enter key).1 ∧ Alike n n' (g.enter key).2 (g'.enter key').2 := by
  have hadmission := h.count.admission ha ha'
  rw [enter_fst, enter_fst, enter_snd, enter_snd, hadmission]
  refine ⟨rfl, ?_⟩
  split
  · exact h.count.begin ha ha'
  · exact h.count

end

end Guard

/-! ## Caches -/

namespace Cache

variable {n n' m m' : Naming Judgment JudgmentKey} {c c' : Cache}

def answers (c : Cache) (key : JudgmentKey) : Set Bool := { b | c.peek key = some b }

structure Alike (n n' : Naming Judgment JudgmentKey) (c c' : Cache) : Prop where
  hits : c'.hits = c.hits
  misses : c'.misses = c.misses
  size : c'.size = c.size
  answers : n.Matches n' c.answers c'.answers

theorem alike_empty (n n' : Naming Judgment JudgmentKey) : Alike n n' {} {} := by
  have hempty : ({} : Cache).answers = fun _ => ∅ := by
    funext key
    simp [Cache.answers, peek]
  refine ⟨rfl, rfl, rfl, ?_⟩
  rw [hempty]
  exact Naming.matches_empty n n'

theorem Alike.extend (h : Alike n n' c c') (hn : n.Extends m) (hn' : n'.Extends m') : Alike m m' c c' :=
  ⟨h.hits, h.misses, h.size, h.answers.extend hn hn'⟩

section
variable {j : Judgment} {key key' : JudgmentKey} (h : Alike n n' c c') (hj : n.name? j = some key)
  (hj' : n'.name? j = some key')
include h hj hj'

theorem Alike.peek : c'.peek key' = c.peek key := by
  have heq := Set.ext_iff.mp (h.answers.entry_eq hj hj')
  exact Option.ext fun b => (heq b).symm

theorem Alike.lookup : Alike n n' (c.lookup key).2 (c'.lookup key').2 := by
  have hanswers : ∀ (c : Cache) key, (c.lookup key).2.answers = c.answers := by
    intro c key
    funext other
    simp [Cache.answers]
  have hmatches := h.answers
  rw [← hanswers c key, ← hanswers c' key'] at hmatches
  have hpeek := h.peek hj hj'
  cases hp : c.peek key with
  | some b =>
    rw [hp] at hpeek
    simp only [Cache.lookup, hp, hpeek] at hmatches ⊢
    exact ⟨congrArg (· + 1) h.hits, h.misses, h.size, hmatches⟩
  | none =>
    rw [hp] at hpeek
    simp only [Cache.lookup, hp, hpeek] at hmatches ⊢
    exact ⟨h.hits, congrArg (· + 1) h.misses, h.size, hmatches⟩

theorem Alike.insert (b : Bool) : Alike n n' (c.insert key b) (c'.insert key' b) := by
  have hanswers : ∀ (c : Cache) key, (c.insert key b).answers = Function.update c.answers key {b} := by
    intro c key
    funext other
    by_cases ho : other = key
    · subst ho
      ext b'
      simp [Cache.answers, eq_comm]
    · rw [Function.update_of_ne ho]
      ext b'
      simp [Cache.answers, Ne.symm ho]
  have hsize : ∀ (c : Cache) key, (c.insert key b).size = if (c.peek key).isSome then c.size else c.size + 1 := by
    intro c key
    simp [Cache.size, Cache.insert, Cache.peek, Std.TreeMap.size_insert]
  refine ⟨h.hits, h.misses, ?_, ?_⟩
  · rw [hsize, hsize, h.peek hj hj', h.size]
  · rw [hanswers, hanswers]
    exact h.answers.update hj hj' _

end

end Cache

/-! ## Handles with identities -/

namespace Identities

variable {ids ids' : Identities} {g : Handle}

def named (ids : Identities) : Set Handle := { g | (ids.find? g).isSome = true }

theorem named_finite_ncard (ids : Identities) : ids.named.Finite ∧ ids.named.ncard = ids.assigned.size := by
  classical
  have hsurjective : ∀ i : Nat, ∃ g : Handle, g.code = i := by
    intro i
    obtain ⟨k, rfl | rfl⟩ := Nat.even_or_odd' i
    · exact ⟨.type ⟨k⟩, rfl⟩
    · exact ⟨.signature ⟨k⟩, rfl⟩
  have hinj : Function.Injective Handle.code := fun _ _ => Handle.code_inj
  have himage : Handle.code '' ids.named = (ids.assigned.keys.toFinset : Set Nat) := by
    ext i
    obtain ⟨g, rfl⟩ := hsurjective i
    simp [hinj.mem_set_image, named, find?]
  have hnodup : ids.assigned.keys.Nodup := Std.TreeMap.nodup_keys
  constructor
  · refine Set.Finite.of_finite_image ?_ hinj.injOn
    rw [himage]
    exact Finset.finite_toSet _
  · rw [← Set.ncard_image_of_injective _ hinj, himage, Set.ncard_coe_finset, List.toFinset_card_of_nodup hnodup,
      Std.TreeMap.length_keys]

theorem hasRoom_of_named (h : ids'.named ⊆ ids.named) (hroom : ids.HasRoom) : ids'.HasRoom := by
  obtain ⟨hfinite, hcount⟩ := ids.named_finite_ncard
  obtain ⟨-, hcount'⟩ := ids'.named_finite_ncard
  have hle := Set.ncard_le_ncard h hfinite
  unfold HasRoom at hroom ⊢
  omega

theorem named_assign_subset (ids : Identities) (g : Handle) : (ids.assign g).2.named ⊆ insert g ids.named := by
  intro g' hg'
  by_cases heq : g' = g
  · exact .inl heq
  · refine .inr ?_
    cases hn : ids.find? g with
    | some i =>
      rw [assign_of_some hn] at hg'
      exact hg'
    | none =>
      rw [assign_new hn] at hg'
      simp only [named, Set.mem_ofPred_eq] at hg' ⊢
      split at hg'
      · rwa [find?_insert, if_neg (Ne.symm heq)] at hg'
      · exact hg'

/-- Both are sound, and the second has identities for no other handles. -/
structure Shadows (ids ids' : Identities) : Prop where
  sound : ids.Sound
  sound' : ids'.Sound
  named : ids'.named ⊆ ids.named

theorem Shadows.assign (h : Shadows ids ids') (hroom : (ids.assign g).2.HasRoom) :
    Shadows (ids.assign g).2 (ids'.assign g).2 ∧ (ids.assign g).2.find? g = some (ids.assign g).1 ∧
      (ids'.assign g).2.find? g = some (ids'.assign g).1 := by
  have hfound := find?_assign_self h.sound hroom
  have hnamed : (ids'.assign g).2.named ⊆ (ids.assign g).2.named := by
    intro g' hg'
    obtain rfl | hg' := named_assign_subset ids' g hg'
    · simp [Identities.named, hfound]
    · obtain ⟨i, hi⟩ := Option.isSome_iff_exists.mp (h.named hg')
      simp [Identities.named, (ids.grows_assign g).keeps hi]
  have hroom' := hasRoom_of_named hnamed hroom
  exact ⟨⟨h.sound.assign hroom, h.sound'.assign hroom', hnamed⟩, hfound, find?_assign_self h.sound' hroom'⟩

theorem Shadows.keyed {j : Judgment} (h : Shadows ids ids') (hroom : (ids.keyed j).2.HasRoom) :
    Shadows (ids.keyed j).2 (ids'.keyed j).2 ∧ (ids.keyed j).2.IsKey (ids.keyed j).1 j ∧
      (ids'.keyed j).2.IsKey (ids'.keyed j).1 j := by
  have hroom₁ : (ids.assign j.source).2.HasRoom := (grows_assign _ j.target).hasRoom hroom
  obtain ⟨h₁, hsource, hsource'⟩ := h.assign hroom₁
  obtain ⟨h₂, htarget, htarget'⟩ := h₁.assign hroom
  exact ⟨h₂, ⟨rfl, (grows_assign _ j.target).keeps hsource, htarget⟩,
    ⟨rfl, (grows_assign _ j.target).keeps hsource', htarget'⟩⟩

/-! ## Identities as names -/

def key? (ids : Identities) (j : Judgment) : Option JudgmentKey :=
  match ids.find? j.source, ids.find? j.target with
  | some source, some target => some ⟨j.kind, source, target⟩
  | _, _ => none

theorem key?_eq_some {j : Judgment} {key : JudgmentKey} : ids.key? j = some key ↔ ids.IsKey key j := by
  unfold key?
  constructor
  · intro h
    split at h
    · cases h
      exact ⟨rfl, ‹_›, ‹_›⟩
    · cases h
  · intro h
    simp only [h.source, h.target, ← h.kind]

def check? (ids : Identities) (p : Nat × TypeRef) : Option ValueCheck :=
  (ids.find? (.type p.2)).map fun i => ⟨p.1, i⟩

def Sound.judgments (hs : ids.Sound) : Naming Judgment JudgmentKey where
  name? := ids.key?
  distinct ha hb := hs.eq_of_isKey (key?_eq_some.mp ha) (key?_eq_some.mp hb)

def Sound.checks (hs : ids.Sound) : Naming (Nat × TypeRef) ValueCheck where
  name? := ids.check?
  distinct {a b k} ha hb := by
    simp only [check?, Option.map_eq_some_iff] at ha hb
    obtain ⟨i, hi, rfl⟩ := ha
    obtain ⟨i', hi', heq⟩ := hb
    obtain ⟨hvalue, rfl⟩ := ValueCheck.mk.inj heq
    exact Prod.ext hvalue.symm (Handle.type.inj (hs.distinct hi hi'))

theorem Grows.judgments {later : Identities} (hg : ids.Grows later) (hs : ids.Sound) (hs' : later.Sound) :
    hs.judgments.Extends hs'.judgments := by
  intro j key hk
  exact key?_eq_some.mpr ((key?_eq_some.mp hk).grows hg)

theorem Grows.checks {later : Identities} (hg : ids.Grows later) (hs : ids.Sound) (hs' : later.Sound) :
    hs.checks.Extends hs'.checks := by
  intro p key hk
  simp only [Sound.checks, check?, Option.map_eq_some_iff] at hk ⊢
  obtain ⟨i, hi, rfl⟩ := hk
  exact ⟨i, hg.keeps hi, rfl⟩

end Identities

end TypeContracts
