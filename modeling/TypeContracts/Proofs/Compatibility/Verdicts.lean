import TypeContracts.Proofs.Compatibility.Unrolling
import TypeContracts.Proofs.Engine.Judging

/-!
# Verdicts on judgments

A judgment is decided with others in progress, and these are taken for
granted. A no is a no all the same, because the rules are monotone. A yes is
provisional: it holds under the assumption that what is in progress holds
(`Verdict`). It is firm when no assumption was made on the way, or when nothing
is in progress any more, and only then does the cache keep it. So the cache
holds what is true (`Consistent`).
-/

namespace TypeContracts

def Engine.Unguarded (e : Engine) : Prop := e.subtypeGuard.Empty ∧ e.valueGuard.Empty

instance (e : Engine) : Decidable e.Unguarded := inferInstanceAs (Decidable (_ ∧ _))

/-- What no check changes but for the answers it finds: options, identities once assigned, and what is in
progress. -/
structure Context.Follows (s s' : Context) : Prop where
  options : s'.engine.options = s.engine.options
  identities : s.identities.Grows s'.identities
  subtypeGuard : s.engine.subtypeGuard.Restored s'.engine.subtypeGuard
  valueGuard : s.engine.valueGuard.Restored s'.engine.valueGuard
  assumptions : s.engine.cycleAssumptions ≤ s'.engine.cycleAssumptions

namespace Context.Follows

variable {s s₁ s₂ : Context}

theorem refl (s : Context) : Follows s s :=
  ⟨rfl, .refl _, .refl _, .refl _, Nat.le_refl _⟩

theorem trans (h₁ : Follows s s₁) (h₂ : Follows s₁ s₂) : Follows s s₂ where
  options := h₂.options.trans h₁.options
  identities := h₁.identities.trans h₂.identities
  subtypeGuard := h₁.subtypeGuard.trans h₂.subtypeGuard
  valueGuard := h₁.valueGuard.trans h₂.valueGuard
  assumptions := Nat.le_trans h₁.assumptions h₂.assumptions

theorem unguarded (h : Follows s s₁) (hs : s.engine.Unguarded) : s₁.engine.Unguarded :=
  ⟨h.subtypeGuard.empty hs.1, h.valueGuard.empty hs.2⟩

end Context.Follows

namespace Inquiry

section
variable {κ : Type} {ask : κ → Check Bool} {I : Context → Prop} {s s' : Context}
  (hf : ∀ k (s : Context), s.Follows (stateAfter (ask k s)))
  (hi : ∀ k {s}, I s → (stateAfter (ask k s)).identities.HasRoom → I (stateAfter (ask k s)))
include hf hi

/-- What every answer keeps holds after any number of answers, and before each of them. -/
theorem asked_within {answers : List (κ × Bool)} (h : Asked ask s answers s') (hs : I s)
    (hroom : s'.identities.HasRoom) :
    I s' ∧ ∀ k b, (k, b) ∈ answers → ∃ s₁ s₂, I s₁ ∧ s.Follows s₁ ∧ ask k s₁ = .ok b s₂ ∧ s₁.Follows s₂ ∧
      s₂.Follows s' ∧ s₂.identities.HasRoom := by
  induction h with
  | nil => exact ⟨hs, by simp⟩
  | @cons s s₁ s' k b answers hk hrest ih =>
    have hfirst := hf k s
    have hs₁ := hi k hs
    rw [hk, stateAfter_ok] at hfirst hs₁
    -- room is needed after each answer, and is only said to be left after the last
    have hlater := asked_rel Context.Follows.refl Context.Follows.trans hf hrest
    have hroom₁ := hlater.identities.hasRoom hroom
    obtain ⟨hs', hall⟩ := ih (hs₁ hroom₁) hroom
    refine ⟨hs', fun k' b' hk' => ?_⟩
    obtain heq | hk' := List.mem_cons.mp hk'
    · cases heq
      exact ⟨s, s₁, hs, .refl s, hk, hfirst, hlater, hroom₁⟩
    · obtain ⟨s₂, s₃, hs₂, hbefore, hask, hduring, hafter, hroom₃⟩ := hall k' b' hk'
      exact ⟨s₂, s₃, hs₂, hfirst.trans hbefore, hask, hduring, hafter, hroom₃⟩

theorem run_keeps {t : Inquiry κ} (hs : I s) (hroom : (stateAfter (t.run ask s)).identities.HasRoom) :
    I (stateAfter (t.run ask s)) := by
  cases h : t.run ask s with
  | ok b s' =>
    rw [h] at hroom
    obtain ⟨answers, -, hasked⟩ := run_ok h
    exact (asked_within hf hi hasked hs hroom).1
  | error e s' =>
    rw [h] at hroom
    obtain ⟨answers, s₁, hasked, ⟨-, rfl⟩ | ⟨k, -, hk⟩⟩ := run_error h
    · exact (asked_within hf hi hasked hs hroom).1
    · have hfk := hf k s₁
      have hik := hi k (s := s₁)
      rw [hk] at hfk hik
      exact hik (asked_within hf hi hasked hs (hfk.identities.hasRoom hroom)).1 hroom

end

end Inquiry

namespace Check

theorem judge_follows {j : Judgment} {compute : Check Bool} (hc : ∀ s : Context, s.Follows (stateAfter (compute s)))
    (s : Context) : s.Follows (stateAfter (judge j compute s)) := by
  have hids : ∀ {key ids}, s.identities.keyed j = (key, ids) → s.identities.Grows ids := fun hk => by
    have := s.identities.grows_keyed j
    rwa [hk] at this
  have hrenewed := s.engine.subtypeGuard.restored_renewed
  have hj := judge_judged j compute s
  generalize judge j compute s = r at hj ⊢
  cases hj with
  | hit journal hk hp => exact ⟨rfl, hids hk, .refl _, .refl _, Nat.le_refl _⟩
  | assumed journal hk hp ha =>
    exact ⟨rfl, hids hk, hrenewed.trans (Guard.restored_denied (by rw [ha]; decide)), .refl _, Nat.le_succ _⟩
  | denied journal hk hp ha =>
    exact ⟨rfl, hids hk, hrenewed.trans (Guard.restored_denied (Admission.ne_entered ha)), .refl _, Nat.le_refl _⟩
  | @computed key ids b s' journal journal' hk hp ha hr =>
    have hf := hc ⟨s.engine.begun key, ids, journal⟩
    rw [hr] at hf
    refine ⟨?_, (hids hk).trans hf.identities, ?_, ?_, ?_⟩
    · exact (Engine.kept_options ..).trans hf.options
    · simp only [stateAfter_ok, Engine.kept_subtypeGuard]
      exact hrenewed.trans (Guard.restored_leave ha hf.subtypeGuard)
    · simp only [stateAfter_ok, Engine.kept_valueGuard]
      exact hf.valueGuard
    · simp only [stateAfter_ok, Engine.kept_cycleAssumptions]
      exact hf.assumptions
  | @failed key ids e s' journal hk hp ha hr =>
    have hf := hc ⟨s.engine.begun key, ids, journal⟩
    rw [hr] at hf
    exact ⟨hf.options, (hids hk).trans hf.identities, hrenewed.trans (Guard.restored_leave ha hf.subtypeGuard),
      hf.valueGuard, hf.assumptions⟩

/-- The identities of the source and the target are drawn first. -/
theorem judge_grows {j : Judgment} {compute : Check Bool} (hc : ∀ s : Context, s.Follows (stateAfter (compute s)))
    {s : Context} {key : JudgmentKey} {ids : Identities} (hk : s.identities.keyed j = (key, ids)) :
    ids.Grows (stateAfter (judge j compute s)).identities := by
  rw [judge_run j compute s hk]
  split
  · exact .refl _
  · split
    · have hf := hc ⟨s.engine.begun key, ids, s.journal.asked key⟩
      split <;> rename_i hr <;> rw [hr] at hf <;> exact hf.identities
    · exact .refl _
    · exact .refl _
    · exact .refl _

end Check

/-! ## What the cache and the guard mean -/

def Context.inProgress (s : Context) : Set Judgment :=
  { j | ∃ key, s.identities.IsKey key j ∧ s.engine.subtypeGuard.isVisiting key = true }

namespace Compatibility

/-- Every key in use stands for a judgment, and the cache holds only what is true. -/
structure Consistent (c : Catalog) (strict : Bool) (s : Context) : Prop where
  identities : s.identities.Sound
  synced : s.engine.subtypeGuard.Synced
  cached : ∀ {key b}, s.engine.cache.peek key = some b →
    ∃ j, s.identities.IsKey key j ∧ (b = true ↔ j ∈ related c strict)
  visiting : ∀ {key}, s.engine.subtypeGuard.isVisiting key = true → ∃ j, s.identities.IsKey key j

section
variable {c : Catalog} {strict : Bool} {s s' : Context} {ids : Identities} {j : Judgment} {key : JudgmentKey}
  {b : Bool}

theorem consistent_create (hs : ids.Sound) (options : Options) (journal : Log.Journal) :
    Consistent c strict ⟨.create options, ids, journal⟩ where
  identities := hs
  synced := rfl
  cached hp := by simp [Engine.create, Cache.peek] at hp
  visiting hv := by simp [Engine.create, Guard.ofProfile, Guard.isVisiting] at hv

theorem Consistent.keyed (hc : Consistent c strict s) (hk : s.identities.keyed j = (key, ids)) (hr : ids.HasRoom) :
    s.identities.Grows ids ∧ ids.Sound ∧ ids.IsKey key j := by
  have hg := s.identities.grows_keyed j
  have hs := hc.identities.keyed (j := j)
  rw [hk] at hg hs
  exact ⟨hg, hs hr⟩

theorem Consistent.of_restored (hc : Consistent c strict s) (hs : s'.identities.Sound)
    (hids : s.identities.Grows s'.identities) (hguard : s.engine.subtypeGuard.Restored s'.engine.subtypeGuard)
    (hcache : ∀ key, s'.engine.cache.peek key = s.engine.cache.peek key) : Consistent c strict s' where
  identities := hs
  synced := hguard.synced hc.synced
  cached hp := by
    rw [hcache] at hp
    obtain ⟨j, hk, hb⟩ := hc.cached hp
    exact ⟨j, hk.grows hids, hb⟩
  visiting hv := by
    rw [hguard.visiting hc.synced] at hv
    obtain ⟨j, hk⟩ := hc.visiting hv
    exact ⟨j, hk.grows hids⟩

theorem Consistent.iff_of_peek (hc : Consistent c strict s) (hids : s.identities.Grows ids) (hs : ids.Sound)
    (hk : ids.IsKey key j) (hp : s.engine.cache.peek key = some b) : b = true ↔ j ∈ related c strict := by
  obtain ⟨j', hk', hb⟩ := hc.cached hp
  rwa [hs.eq_of_isKey hk (hk'.grows hids)]

theorem Consistent.mem_inProgress (hc : Consistent c strict s) (hids : s.identities.Grows ids) (hs : ids.Sound)
    (hk : ids.IsKey key j) (hv : s.engine.subtypeGuard.isVisiting key = true) : j ∈ s.inProgress := by
  obtain ⟨j', hk'⟩ := hc.visiting hv
  rw [hs.eq_of_isKey hk (hk'.grows hids)]
  exact ⟨key, hk', hv⟩

theorem Consistent.inProgress_eq (hc : Consistent c strict s) (hs : s'.identities.Sound) (hf : s.Follows s') :
    s'.inProgress = s.inProgress := by
  ext j
  constructor
  · rintro ⟨key, hk, hv⟩
    rw [hf.subtypeGuard.visiting hc.synced] at hv
    exact hc.mem_inProgress hf.identities hs hk hv
  · rintro ⟨key, hk, hv⟩
    rw [← hf.subtypeGuard.visiting hc.synced] at hv
    exact ⟨key, hk.grows hf.identities, hv⟩

theorem Consistent.inProgress_empty (hc : Consistent c strict s) (hd : s.engine.subtypeGuard.isActive = false) :
    s.inProgress = ∅ := by
  have hd : s.engine.subtypeGuard.depth = 0 := by simpa [Guard.isActive] using hd
  refine Set.eq_empty_of_forall_notMem fun j hj => ?_
  obtain ⟨key, -, hv⟩ := hj
  rw [Guard.isVisiting_of_depth hc.synced hd] at hv
  cases hv

theorem Consistent.enter (s' : Context) (hc : Consistent c strict s) (hids : s.identities.Grows s'.identities)
    (hs : s'.identities.Sound) (hk : s'.identities.IsKey key j)
    (ha : (s.engine.subtypeGuard.renewed.enter key).1 = .entered)
    (hguard : s'.engine.subtypeGuard = (s.engine.subtypeGuard.renewed.enter key).2)
    (hcache : ∀ key, s'.engine.cache.peek key = s.engine.cache.peek key) :
    Consistent c strict s' ∧ s'.inProgress = insert j s.inProgress := by
  have hrenewed := s.engine.subtypeGuard.restored_renewed
  obtain ⟨-, -, hsync, hvisit⟩ := Guard.entered ha
  have hvisit : ∀ other, s'.engine.subtypeGuard.isVisiting other = true ↔
      key = other ∨ s.engine.subtypeGuard.isVisiting other = true := by
    intro other
    rw [hguard, hvisit, hrenewed.visiting hc.synced]
  refine ⟨⟨hs, ?_, ?_, ?_⟩, ?_⟩
  · rw [hguard]
    exact hsync (hrenewed.synced hc.synced)
  · intro other b hp
    rw [hcache] at hp
    obtain ⟨j', hk', hb⟩ := hc.cached hp
    exact ⟨j', hk'.grows hids, hb⟩
  · intro other hv
    obtain rfl | hv := (hvisit other).mp hv
    · exact ⟨j, hk⟩
    · obtain ⟨j', hk'⟩ := hc.visiting hv
      exact ⟨j', hk'.grows hids⟩
  · ext j'
    constructor
    · rintro ⟨other, hk', hv⟩
      obtain rfl | hv := (hvisit other).mp hv
      · exact .inl (hs.eq_of_isKey hk' hk)
      · exact .inr (hc.mem_inProgress hids hs hk' hv)
    · rintro (rfl | ⟨other, hk', hv⟩)
      · exact ⟨key, hk, (hvisit key).mpr (.inl rfl)⟩
      · exact ⟨other, hk'.grows hids, (hvisit other).mpr (.inr hv)⟩

theorem Consistent.left (hc : Consistent c strict s) (hc' : Consistent c strict s')
    (hids : s.identities.Grows s'.identities)
    (hguard : s.engine.subtypeGuard.Restored (s'.engine.subtypeGuard.leave key)) :
    Consistent c strict { s' with engine := s'.engine.left key } where
  identities := hc'.identities
  synced := hguard.synced hc.synced
  cached := hc'.cached
  visiting hv := by
    obtain ⟨j, hk⟩ := hc.visiting ((hguard.visiting hc.synced _).symm.trans hv)
    exact ⟨j, hk.grows hids⟩

theorem Consistent.kept {before : Nat} (hc : Consistent c strict s) (hk : s.identities.IsKey key j)
    (hb : (!b || !s.engine.subtypeGuard.isActive || s.engine.cycleAssumptions == before) = true →
      (b = true ↔ j ∈ related c strict)) (journal : Log.Journal) :
    Consistent c strict ⟨s.engine.kept key before b, s.identities, journal⟩ := by
  unfold Engine.kept
  split
  · rename_i hkeep
    refine ⟨hc.identities, hc.synced, ?_, hc.visiting⟩
    intro other b' hp
    rw [Cache.peek_insert] at hp
    split at hp
    · rename_i heq
      cases hp
      exact ⟨j, heq ▸ hk, hb hkeep⟩
    · exact hc.cached hp
  · exact ⟨hc.identities, hc.synced, hc.cached, hc.visiting⟩

end

/-! ## Answers -/

def presumed (c : Catalog) (strict : Bool) (s : Context) : Set Judgment :=
  provisional (rules c strict) s.inProgress

def granted (c : Catalog) (strict : Bool) (s : Context) : Set Judgment := presumed c strict s ∪ s.inProgress

/-- What it means that `j` is answered `b` on the way from `s` to `s'`. A yes is as good as `T`, and is firm if
nothing was assumed on the way. -/
structure Verdict (c : Catalog) (strict : Bool) (T : Set Judgment) (j : Judgment) (s : Context) (b : Bool)
    (s' : Context) : Prop where
  no : b = false → j ∉ related c strict
  yes : b = true → j ∈ T
  firm : b = true → s'.engine.cycleAssumptions = s.engine.cycleAssumptions → j ∈ related c strict

theorem Verdict.of_iff {c : Catalog} {strict : Bool} {j : Judgment} {b : Bool} (h : b = true ↔ j ∈ related c strict)
    (s s' : Context) : Verdict c strict (granted c strict s) j s b s' where
  no hb hrel := by
    rw [h.mpr hrel] at hb
    cases hb
  yes hb := .inl (gfp_subset_provisional _ _ (h.mp hb))
  firm hb _ := h.mp hb

/-- The check `m` answers `j`, with yeses as good as `T`, as long as there is room for identities. -/
structure Answers (c : Catalog) (strict : Bool) (T : Context → Set Judgment) (j : Judgment) (m : Check Bool) :
    Prop where
  follows : ∀ s : Context, s.Follows (stateAfter (m s))
  consistent : ∀ {s}, Consistent c strict s → (stateAfter (m s)).identities.HasRoom →
    Consistent c strict (stateAfter (m s))
  verdict : ∀ {s b s'}, Consistent c strict s → m s = .ok b s' → s'.identities.HasRoom →
    Verdict c strict (T s) j s b s'

section
variable {c : Catalog} {strict : Bool}

theorem asked_verdicts {ask : Judgment → Check Bool} {s s' : Context} {answers : List (Judgment × Bool)}
    (ha : ∀ k, Answers c strict (granted c strict) k (ask k)) (h : Inquiry.Asked ask s answers s')
    (hc : Consistent c strict s) (hr : s'.identities.HasRoom) (k : Judgment) (b : Bool) (hk : (k, b) ∈ answers) :
    Verdict c strict (granted c strict s) k s b s' := by
  obtain ⟨s₁, s₂, hc₁, hbefore, hask, hduring, hafter, hr₂⟩ :=
    (Inquiry.asked_within (fun k => (ha k).follows) (fun k => (ha k).consistent) h hc hr).2 k b hk
  have hv := (ha k).verdict hc₁ hask hr₂
  have hgranted : granted c strict s₁ = granted c strict s := by
    simp only [granted, presumed, hc.inProgress_eq hc₁.identities hbefore]
  have hle := hbefore.assumptions
  have hle₁ := hduring.assumptions
  have hle₂ := hafter.assumptions
  exact ⟨hv.no, fun hb => hgranted ▸ hv.yes hb, fun hb he => hv.firm hb (by omega)⟩

theorem answers_throw (T : Context → Set Judgment) (j : Judgment) (e : Failure) :
    Answers c strict T j (throw e) where
  follows s := .refl s
  consistent hc _ := hc
  verdict _ h _ := by cases h

/-- A rule that decides the condition of a judgment, given sound answers, answers the judgment, and takes nothing for
granted about it. -/
theorem answers_inquires {m : (Judgment → Check Bool) → Check Bool} {S : Set Handle} {E : Set Failure}
    {ask : Judgment → Check Bool} {j : Judgment} (hj : isReflexive j = false)
    (hm : Asking m (RuleStep · c strict j) S E)
    (ha : ∀ k ∈ Judgment.among S, Answers c strict (granted c strict) k (ask k)) :
    Answers c strict (presumed c strict) j (m ask) := by
  obtain ⟨t, ht, hd, hasks, -⟩ := hm
  obtain ⟨ask, hrun, ha⟩ := Inquiry.exists_run_eq (P := Answers c strict (granted c strict))
    (fun k hk => ha k (hasks k hk)) fun k => answers_throw _ k .unsupportedTypeParameter
  rw [ht, id, hrun]
  refine ⟨Inquiry.run_rel Context.Follows.refl Context.Follows.trans fun k => (ha k).follows, ?_, ?_⟩
  · intro s hc hr
    exact Inquiry.run_keeps (fun k => (ha k).follows) (fun k => (ha k).consistent) hc hr
  · intro s b s' hc h hr
    obtain ⟨answers, hends, hasked⟩ := Inquiry.run_ok h
    have hvs := asked_verdicts ha hasked hc hr
    refine ⟨?_, ?_, ?_⟩
    · rintro rfl hrel
      have hno := hd.no hends (related c strict) fun k hk => (hvs k false hk).no rfl
      obtain hrefl | hstep := mem_related_iff.mp hrel
      · rw [hj] at hrefl
        cases hrefl
      · exact hno hstep
    · rintro rfl
      have hyes := hd.yes hends (granted c strict s) fun k hk => (hvs k true hk).yes rfl
      unfold presumed
      rw [← provisional_eq]
      exact .inr hyes
    · rintro rfl he
      have hyes := hd.yes hends (related c strict) fun k hk => (hvs k true hk).firm rfl he
      exact mem_related_iff.mpr (.inr hyes)

theorem answers_rule {ask : Judgment → Check Bool} {j : Judgment} (hj : isReflexive j = false)
    (ha : ∀ k ∈ Judgment.among (near c j), Answers c strict (granted c strict) k (ask k)) :
    Answers c strict (presumed c strict) j (rule c ask strict j) :=
  answers_inquires hj (rule_inquires c strict j) ha

/-- A computation is begun, runs with its judgment in progress, and is left again. -/
theorem Answers.entered {T : Context → Set Judgment} {j : Judgment} {compute : Check Bool} {s : Context}
    {key : JudgmentKey} {ids : Identities} {journal : Log.Journal} (h : Answers c strict T j compute)
    (hc : Consistent c strict s) (hk : s.identities.keyed j = (key, ids))
    (ha : (s.engine.subtypeGuard.renewed.enter key).1 = .entered) {r : EStateM.Result Failure Context Bool}
    (hr : compute ⟨s.engine.begun key, ids, journal⟩ = r) (hroom : (stateAfter r).identities.HasRoom) :
    Consistent c strict ⟨s.engine.begun key, ids, journal⟩ ∧
      (⟨s.engine.begun key, ids, journal⟩ : Context).inProgress = insert j s.inProgress ∧
      (stateAfter r).identities.IsKey key j ∧
      s.engine.subtypeGuard.Restored ((stateAfter r).engine.subtypeGuard.leave key) ∧
      Consistent c strict { stateAfter r with engine := (stateAfter r).engine.left key } := by
  subst hr
  have hf := h.follows ⟨s.engine.begun key, ids, journal⟩
  obtain ⟨hids, hs, hkey⟩ := hc.keyed hk (hf.identities.hasRoom hroom)
  obtain ⟨hc₁, hprogress⟩ := hc.enter ⟨s.engine.begun key, ids, journal⟩ hids hs hkey ha rfl
    (Cache.peek_lookup _ _)
  have hguard := s.engine.subtypeGuard.restored_renewed.trans (Guard.restored_leave ha hf.subtypeGuard)
  exact ⟨hc₁, hprogress, hkey.grows hf.identities, hguard,
    hc.left (h.consistent hc₁ hroom) (hids.trans hf.identities) hguard⟩

theorem judged_verdict {j : Judgment} {compute : Check Bool} {s : Context} {r : EStateM.Result Failure Context Bool}
    (h : Answers c strict (presumed c strict) j compute) (hj : Check.Judged j compute s r)
    (hc : Consistent c strict s) (hr : (stateAfter r).identities.HasRoom) :
    Consistent c strict (stateAfter r) ∧
      ∀ b s', r = .ok b s' → Verdict c strict (granted c strict s) j s b s' := by
  have hrenewed := s.engine.subtypeGuard.restored_renewed
  cases hj with
  | hit journal hk hp =>
    obtain ⟨hids, hs, hkey⟩ := hc.keyed hk hr
    have hb := hc.iff_of_peek hids hs hkey hp
    refine ⟨hc.of_restored hs hids (.refl _) (Cache.peek_lookup _ _), ?_⟩
    rintro _ _ ⟨⟩
    exact .of_iff hb s _
  | assumed journal hk hp ha =>
    obtain ⟨hids, hs, hkey⟩ := hc.keyed hk hr
    have hguard := hrenewed.trans (Guard.restored_denied (by rw [ha]; decide))
    refine ⟨hc.of_restored hs hids hguard (Cache.peek_lookup _ _), ?_⟩
    rintro _ _ ⟨⟩
    have hv := Guard.isVisiting_of_cycle ha
    rw [hrenewed.visiting hc.synced] at hv
    refine ⟨by simp, fun _ => .inr (hc.mem_inProgress hids hs hkey hv), fun _ he => ?_⟩
    simp at he
  | denied journal hk hp ha =>
    obtain ⟨hids, hs, hkey⟩ := hc.keyed hk hr
    have hne := Admission.ne_entered ha
    refine ⟨hc.of_restored hs hids (hrenewed.trans (Guard.restored_denied hne)) (Cache.peek_lookup _ _), ?_⟩
    rintro _ _ ⟨⟩
  | @computed key ids b s' journal journal' hk hp ha hcompute =>
    obtain ⟨hc₁, hprogress, hkey, hguard, hleft⟩ := h.entered hc hk ha hcompute hr
    have hv := h.verdict hc₁ hcompute hr
    -- the judgment has been in progress itself, and may be presumed without that
    have hyes : b = true → j ∈ presumed c strict s := fun hb => by
      have hj := hv.yes hb
      rw [presumed, hprogress] at hj
      exact provisional_insert _ hj
    refine ⟨hleft.kept hkey (fun hkeep => ⟨fun hb => ?_, fun hrel => ?_⟩) journal', ?_⟩
    · simp only [hb, Bool.not_true, Bool.false_or, Bool.or_eq_true, Bool.not_eq_true', beq_iff_eq] at hkeep
      -- a yes is kept when nothing is in progress any more, or when nothing was assumed
      obtain hidle | hsame := hkeep
      · have hidle : s.engine.subtypeGuard.isActive = false := by
          rw [← hidle]
          simp only [Guard.isActive, ← hguard.depth hc.synced]
          rfl
        have hj := hyes hb
        rwa [presumed, hc.inProgress_empty hidle, provisional_empty] at hj
      · exact hv.firm hb hsame
    · cases b with
      | false => exact absurd hrel (hv.no rfl)
      | true => rfl
    · rintro _ _ ⟨⟩
      refine ⟨hv.no, fun hb => .inl (hyes hb), fun hb he => hv.firm hb ?_⟩
      rw [Engine.kept_cycleAssumptions] at he
      exact he
  | failed journal hk hp ha hcompute =>
    obtain ⟨-, -, -, -, hleft⟩ := h.entered hc hk ha hcompute hr
    exact ⟨hleft, by simp⟩

theorem answers_judge {j : Judgment} {compute : Check Bool} (h : Answers c strict (presumed c strict) j compute) :
    Answers c strict (granted c strict) j (Check.judge j compute) where
  follows := Check.judge_follows h.follows
  consistent hc hr := (judged_verdict h (Check.judge_judged j compute _) hc hr).1
  verdict {s b s'} hc hm hr := by
    have hv := judged_verdict h (Check.judge_judged j compute s) hc
    rw [hm] at hv
    exact (hv hr).2 b s' rfl

theorem answers_reflexive {j : Judgment} (hj : isReflexive j = true) :
    Answers c strict (granted c strict) j (pure true) where
  follows s := .refl s
  consistent hc _ := hc
  verdict {s b s'} _ h _ := by
    cases h
    have hrel : j ∈ related c strict := mem_related_iff.mpr (.inl hj)
    exact .of_iff (iff_of_true rfl hrel) s _

theorem answers_resolveWithin (strict : Bool) (budget : Nat) (j : Judgment) :
    Answers c strict (granted c strict) j (resolveWithin c strict budget j) := by
  refine resolveWithin_of_judge (askClosed_univ c) answers_reflexive (fun {j ask} _ hj ha => ?_)
    (fun j _ _ => answers_judge (answers_throw _ j _)) budget (Set.mem_univ j)
  exact answers_judge (answers_rule hj ha)

end

/-! ## Whole judgments -/

section
variable {c : Catalog} {j : Judgment} {s s' : Context}

theorem resolve_follows (c : Catalog) (j : Judgment) (s : Context) : s.Follows (stateAfter (resolve c j s)) :=
  (answers_resolveWithin s.engine.options.strictNullableSources _ j).follows s

theorem resolve_consistent (hc : Consistent c s.engine.options.strictNullableSources s)
    (hr : (stateAfter (resolve c j s)).identities.HasRoom) :
    Consistent c s.engine.options.strictNullableSources (stateAfter (resolve c j s)) :=
  (answers_resolveWithin _ _ j).consistent hc hr

/-- With nothing in progress a verdict is the truth. -/
theorem Verdict.exact {strict b : Bool} (hv : Verdict c strict (granted c strict s) j s b s')
    (hc : Consistent c strict s) (hidle : s.engine.subtypeGuard.isActive = false) :
    b = true ↔ j ∈ related c strict := by
  cases b with
  | false => exact ⟨nofun, fun hrel => absurd hrel (hv.no rfl)⟩
  | true =>
    have hyes := hv.yes rfl
    rw [granted, presumed, hc.inProgress_empty hidle, provisional_empty, Set.union_empty] at hyes
    exact ⟨fun _ => hyes, fun _ => rfl⟩

theorem resolve_exact {b : Bool} (hc : Consistent c s.engine.options.strictNullableSources s)
    (hidle : s.engine.subtypeGuard.isActive = false) (h : resolve c j s = .ok b s') (hr : s'.identities.HasRoom) :
    b = true ↔ j ∈ related c s.engine.options.strictNullableSources :=
  ((answers_resolveWithin _ _ j).verdict hc h hr).exact hc hidle

end

end Compatibility

end TypeContracts
