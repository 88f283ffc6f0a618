import TypeContracts.Proofs.Compatibility.Verdicts
import TypeContracts.Proofs.Descriptor.Reach
import TypeContracts.Proofs.Leads

/-!
# Judgments come to an end

A judgment in progress is not begun again, and what is asked on the way is about
handles that can be reached. So judgments nest no deeper than there are pairs of
these (`Confined.depth_le`), and the recursion ends there, however large the
limit (`unrolled_agrees`). One case needs care: the last number of the counter
of identities is none, and a judgment that draws it is not recognized when it is
asked for again. This happens once at most, because the counter then starts over
(`strays`).
-/

namespace TypeContracts

theorem relational_agrees (I : Context → Prop) : Relational Set.univ (Agrees I) where
  pure := .pure
  throw _ := .throw _
  bind hm hf := hm.bind hf

namespace Compatibility

/-! ## What can be in progress -/

/-- Keys in progress that stand for no judgment of `K`. -/
def strays (K : Set Judgment) (s : Context) : Set JudgmentKey :=
  { key | s.engine.subtypeGuard.isVisiting key = true ∧ ∀ j ∈ K, ¬ s.identities.IsKey key j }

/-- Only judgments of `K` are in progress, a single stray apart. After a stray the counter has numbers left for all
of `S`. -/
structure Confined (L : Limits) (K : Set Judgment) (S : Set Handle) (s : Context) : Prop where
  limits : s.engine.subtypeGuard.limits = L
  synced : s.engine.subtypeGuard.Synced
  depth : s.engine.subtypeGuard.depth ≤ L.maxDepth.toNat
  alone : S.ncard < UInt32.size → (strays K s).Subsingleton
  served : S.ncard < UInt32.size → (strays K s).Nonempty → s.identities.Serves S

/-- The context follows the other, and what was left for `S` in numbers is left for what remains of it. -/
structure Within (S : Set Handle) (s s' : Context) : Prop where
  follows : s.Follows s'
  serves : s.identities.Serves S → s'.identities.Serves S

theorem Within.refl (S : Set Handle) (s : Context) : Within S s s := ⟨.refl s, id⟩

theorem Within.trans {S : Set Handle} {s s₁ s₂ : Context} (h₁ : Within S s s₁) (h₂ : Within S s₁ s₂) : Within S s s₂ :=
  ⟨h₁.follows.trans h₂.follows, fun h => h₂.serves (h₁.serves h)⟩

section
variable {L : Limits} {K : Set Judgment} {S : Set Handle} {s s' : Context} {j : Judgment} {key : JudgmentKey}
  {ids : Identities}

theorem Confined.within (hc : Confined L K S s) (hw : Within S s s') :
    Confined L K S s' ∧ s'.engine.subtypeGuard.depth = s.engine.subtypeGuard.depth := by
  have hguard := hw.follows.subtypeGuard
  have hdepth := hguard.depth hc.synced
  have hstrays : strays K s' ⊆ strays K s := by
    intro key hkey
    refine ⟨(hguard.visiting hc.synced key).symm.trans hkey.1, fun j hj hk => ?_⟩
    exact hkey.2 j hj (hk.grows hw.follows.identities)
  refine ⟨⟨hguard.limits.trans hc.limits, hguard.synced hc.synced, hdepth ▸ hc.depth, ?_, ?_⟩, hdepth⟩
  · intro hcard
    exact (hc.alone hcard).anti hstrays
  · intro hcard hne
    exact hw.serves (hc.served hcard (hne.mono hstrays))

theorem Confined.begun (hS : S.Finite) (hc : Confined L K S s) (hj : j ∈ K) (hbetween : j ∈ between S)
    (hk : s.identities.keyed j = (key, ids)) (ha : (s.engine.subtypeGuard.renewed.enter key).1 = .entered)
    (journal : Log.Journal) : Confined L K S ⟨s.engine.begun key, ids, journal⟩ ∧
      (s.engine.begun key).subtypeGuard.depth = s.engine.subtypeGuard.depth + 1 := by
  have hrenewed := s.engine.subtypeGuard.restored_renewed
  obtain ⟨hlimits, hdepth, hsynced, hvisit⟩ := Guard.entered ha
  have hids := s.identities.grows_keyed j
  rw [hk] at hids
  have hdepth : (s.engine.begun key).subtypeGuard.depth = s.engine.subtypeGuard.depth + 1 := by
    rw [← hrenewed.depth hc.synced]
    exact hdepth
  have hlt : s.engine.subtypeGuard.depth < L.maxDepth.toNat := by
    have hlt := Guard.depth_lt_of_entered ha
    rwa [hrenewed.depth hc.synced, hrenewed.limits, hc.limits] at hlt
  -- besides the new key only those that were stray before can be
  have hstrays : ∀ other ∈ strays K ⟨s.engine.begun key, ids, journal⟩,
      other ∈ strays K s ∨ other = key ∧ ¬ ids.IsKey key j := by
    intro other ⟨hv, hother⟩
    obtain rfl | hv := (hvisit other).mp hv
    · exact .inr ⟨rfl, hother j hj⟩
    · rw [hrenewed.visiting hc.synced] at hv
      exact .inl ⟨hv, fun j' hj' hk' => hother j' hj' (hk'.grows hids)⟩
  have hserved : s.identities.Serves S → ids.Serves S ∧ ids.IsKey key j := by
    intro hserves
    have hkeyed := hserves.keyed hS hbetween.1 hbetween.2
    rwa [hk] at hkeyed
  refine ⟨⟨hlimits.trans (hrenewed.limits.trans hc.limits), hsynced (hrenewed.synced hc.synced), ?_, ?_, ?_⟩,
    hdepth⟩
  · exact hdepth ▸ hlt
  · intro hcard x hx y hy
    obtain hx | ⟨hxkey, hlost⟩ := hstrays x hx
    · obtain hy | ⟨-, hlost⟩ := hstrays y hy
      · exact hc.alone hcard hx hy
      · exact absurd (hserved (hc.served hcard ⟨x, hx⟩)).2 hlost
    · obtain hy | ⟨hykey, -⟩ := hstrays y hy
      · exact absurd (hserved (hc.served hcard ⟨y, hy⟩)).2 hlost
      · rw [hxkey, hykey]
  · intro hcard ⟨x, hx⟩
    obtain hx | ⟨-, hlost⟩ := hstrays x hx
    · exact (hserved (hc.served hcard ⟨x, hx⟩)).1
    · have hor := Identities.isKey_or_serves hS hcard s.identities hbetween.2
      rw [hk] at hor
      exact hor.resolve_left hlost

theorem Confined.depth_le (hc : Confined L K S s) (hK : K.Finite) (hcard : S.ncard < UInt32.size) :
    s.engine.subtypeGuard.depth ≤ K.ncard + 1 := by
  obtain ⟨hfinite, hcount⟩ := Guard.ncard_visiting hc.synced
  have hle : { key | s.engine.subtypeGuard.isVisiting key = true }.ncard ≤ K.ncard + (strays K s).ncard :=
    s.identities.ncard_keys_le hK hfinite
  have hfew : (strays K s).Finite := hfinite.subset fun key h => h.1
  have hstrays : (strays K s).ncard ≤ 1 := (Set.ncard_le_one hfew).mpr fun x hx y hy => hc.alone hcard hx hy
  omega

theorem confined_of_idle (hlimits : s.engine.subtypeGuard.limits = L) (hsynced : s.engine.subtypeGuard.Synced)
    (hidle : s.engine.subtypeGuard.depth = 0) : Confined L K S s := by
  have hnone : strays K s = ∅ := by
    refine Set.eq_empty_of_forall_notMem fun key hkey => ?_
    have hv := hkey.1
    rw [Guard.isVisiting_of_depth hsynced hidle] at hv
    cases hv
  refine ⟨hlimits, hsynced, by omega, ?_, ?_⟩
  · intro _
    rw [hnone]
    exact Set.subsingleton_empty
  · intro _ hne
    rw [hnone] at hne
    exact absurd hne Set.not_nonempty_empty

end

/-! ## Deciding a judgment -/

section
variable {S : Set Handle} (hS : S.Finite)
include hS

theorem within_judge {j : Judgment} {compute : Check Bool} (hj : j ∈ between S)
    (hc : ∀ s, Within S s (stateAfter (compute s))) (s : Context) :
    Within S s (stateAfter (Check.judge j compute s)) := by
  refine ⟨Check.judge_follows (fun s => (hc s).follows) s, fun hserves => ?_⟩
  have hkeyed := (hserves.keyed hS hj.1 hj.2).1
  have hjudged := Check.judge_judged j compute s
  generalize Check.judge j compute s = r at hjudged ⊢
  cases hjudged with
  | hit journal hk hp | assumed journal hk hp ha | denied journal hk hp ha =>
    rw [hk] at hkeyed
    exact hkeyed
  | @computed key ids b s' journal journal' hk hp ha hrun =>
    have hw := hc ⟨s.engine.begun key, ids, journal⟩
    rw [hk] at hkeyed
    rw [hrun] at hw
    exact hw.serves hkeyed
  | @failed key ids e s' journal hk hp ha hrun =>
    have hw := hc ⟨s.engine.begun key, ids, journal⟩
    rw [hk] at hkeyed
    rw [hrun] at hw
    exact hw.serves hkeyed

omit hS in
theorem compositional_within (S : Set Handle) :
    Compositional Set.univ fun m : Check Bool => ∀ s, Within S s (stateAfter (m s)) :=
  compositional_rel (Within.refl S) Within.trans

variable {c : Catalog} {strict : Bool} {Q : Set Judgment} (hQ : AskClosed c Q) (hQS : Q ⊆ between S)
include hQ hQS

theorem within_resolveWithin (n : Nat) {j : Judgment} (hj : j ∈ Q) (s : Context) :
    Within S s (stateAfter (resolveWithin c strict n j s)) := by
  revert s
  refine resolveWithin_of_judge (P := fun _ m => ∀ s, Within S s (stateAfter (m s))) hQ (fun _ s => .refl S s) ?_ ?_ n hj
  · intro j ask hj _ ha
    exact within_judge hS (hQS hj) (rule_of_asked (compositional_within S) strict ha (Set.subset_univ _))
  · intro j hj _
    exact within_judge hS (hQS hj) fun s => .refl S s

/-! ## The end of the recursion -/

variable {L : Limits} {B : Nat}
  (hB : ∀ s, Confined L { j ∈ Q | isReflexive j = false } S s → s.engine.subtypeGuard.depth ≤ B)
include hB

/-- Levels of the recursion below the depth that is never exceeded make no difference, nor does what is there. -/
theorem unrolled_agrees {stop : Judgment → Check Bool} {n m d : Nat} (hn : B < d + n) (hm : B ≤ d + m)
    {j : Judgment} (hj : j ∈ Q) :
    Agrees (fun s => Confined L { j ∈ Q | isReflexive j = false } S s ∧ s.engine.subtypeGuard.depth = d)
      (unrolled c strict stop n j) (resolveWithin c strict m j) := by
  induction n generalizing m d j with
  | zero =>
    intro s hs
    have hle := hB s hs.1
    omega
  | succ n ih =>
    intro s hs
    have heq : unrolled c strict stop (n + 1) j s = resolveWithin c strict m j s := by
      by_cases hr : isReflexive j = true
      · cases m <;> simp only [unrolled, resolveWithin, hr, if_true]
      · have hjK : j ∈ { j ∈ Q | isReflexive j = false } := ⟨hj, Bool.eq_false_iff.mpr hr⟩
        -- what is computed runs one level deeper, and there may be no such level
        cases m with
        | zero =>
          simp only [unrolled, resolveWithin, hr, Bool.false_eq_true, if_false]
          refine Check.judge_congr fun key ids journal hk ha => ?_
          obtain ⟨hbegun, hdepth⟩ := hs.1.begun hS hjK (hQS hj) hk ha journal
          have hle := hB _ hbegun
          dsimp only at hle
          omega
        | succ m =>
          simp only [unrolled, resolveWithin, hr, Bool.false_eq_true, if_false]
          refine Check.judge_congr fun key ids journal hk ha => ?_
          obtain ⟨hbegun, hdepth⟩ := hs.1.begun hS hjK (hQS hj) hk ha journal
          obtain ⟨t, ht, -, hasks, -⟩ := rule_inquires c strict j
          have hagrees := (relational_agrees _).run (t := t) _
            (fun k hk => ih (d := d + 1) (m := m) (by omega) (by omega) (hQ j hj (hasks k hk)))
            fun e _ => Set.mem_univ e
          have hrule : ∀ ask, rule c ask strict j = t.run ask := ht
          rw [hrule, hrule]
          exact (hagrees _ ⟨hbegun, by rw [hdepth, hs.2]⟩).1
    refine ⟨heq, ?_⟩
    have hwithin : Within S s (stateAfter (resolveWithin c strict m j s)) := within_resolveWithin hS hQ hQS m hj s
    unfold Leads
    rw [heq]
    cases hr : resolveWithin c strict m j s with
    | ok b s' =>
      rw [hr] at hwithin
      obtain ⟨hconfined, hdepth⟩ := hs.1.within hwithin
      exact ⟨hconfined, hdepth.trans hs.2⟩
    | error e s' => trivial

end

/-! ## The limit -/

theorem not_limit_of_failures {c : Catalog} {j : Judgment} {e : Failure} (he : e ∈ failures c j)
    (activity : Activity) : e ≠ .recursionLimit activity := by
  rintro rfl
  cases j with
  | type s t => exact he.elim id id
  | signature x y => exact he
  | functionTag tag target =>
    have hshape : ∀ {t}, c.shape t ≠ .error (.recursionLimit activity) := by
      intro t ht
      unfold Catalog.shape at ht
      split at ht <;> cases ht
    exact he.elim hshape hshape

/-- The check meets the limit only when judgments nest as deep as this. -/
structure Spends (L : Limits) (K : Set Judgment) (S : Set Handle) (B : Nat) (m : Check Bool) : Prop where
  within : ∀ s, Within S s (stateAfter (m s))
  limit : ∀ {s s' activity}, Confined L K S s → m s = .error (.recursionLimit activity) s' →
    activity = .relatingTypes ∧ (L.maxIterations.toNat = unboundedIterations → L.maxDepth.toNat ≤ B)

section
variable {L : Limits} {K : Set Judgment} {S : Set Handle} {B : Nat}

theorem compositional_spends : Compositional { e | ∀ activity, e ≠ .recursionLimit activity } (Spends L K S B) where
  pure b := ⟨fun s => .refl S s, fun _ h => by cases h⟩
  throw he := ⟨fun s => .refl S s, fun _ h => by cases h; exact absurd rfl (he _)⟩
  bind {m f} hm hf := by
    refine ⟨(compositional_within S).bind hm.within fun b => (hf b).within, fun {s s' activity} hs h => ?_⟩
    obtain h | ⟨b, s₁, hrun, h⟩ := bind_error.mp h
    · exact hm.limit hs h
    · have hwithin := hm.within s
      rw [hrun] at hwithin
      exact (hf b).limit (hs.within hwithin).1 h

variable (hS : S.Finite) (hB : ∀ s, Confined L K S s → s.engine.subtypeGuard.depth ≤ B)
include hS hB

theorem Spends.judge {j : Judgment} {m : Check Bool} (hm : Spends L K S B m) (hj : j ∈ K) (hbetween : j ∈ between S) :
    Spends L K S B (Check.judge j m) := by
  refine ⟨within_judge hS hbetween hm.within, fun {s s' activity} hs h => ?_⟩
  have hjudged := Check.judge_judged j m s
  rw [h] at hjudged
  cases hjudged with
  | denied journal hk hp ha =>
    have hrenewed := s.engine.subtypeGuard.restored_renewed
    refine ⟨rfl, fun hunbounded => ?_⟩
    have hle := Guard.depth_of_isExceeded ha (by rw [hrenewed.limits, hs.limits, hunbounded])
    rw [hrenewed.limits, hs.limits, hrenewed.depth hs.synced] at hle
    exact hle.trans (hB s hs)
  | failed journal hk hp ha hrun => exact hm.limit (hs.begun hS hj hbetween hk ha journal).1 hrun

omit hB in
theorem spends_unrolled {c : Catalog} {strict : Bool} {Q : Set Judgment} (hQ : AskClosed c Q) (hQS : Q ⊆ between S)
    (hB : ∀ s, Confined L { j ∈ Q | isReflexive j = false } S s → s.engine.subtypeGuard.depth ≤ B) (n : Nat)
    {j : Judgment} (hj : j ∈ Q) :
    Spends L { j ∈ Q | isReflexive j = false } S B (unrolled c strict (fun _ => pure true) n j) := by
  refine unrolled_of_judge hQ (P := fun _ m => Spends L { j ∈ Q | isReflexive j = false } S B m)
    (fun _ => compositional_spends.pure true) ?_ (fun _ _ => compositional_spends.pure true) n hj
  intro j ask hj hr ha
  exact (rule_of_asked compositional_spends strict ha fun e he => not_limit_of_failures he).judge hS hB ⟨hj, hr⟩
    (hQS hj)

end

/-! ## Other failures -/

theorem resolveWithin_error {c : Catalog} {strict : Bool} {Q : Set Judgment} (hQ : AskClosed c Q) {budget : Nat}
    {j : Judgment} {s s' : Context} {e : Failure} (hj : j ∈ Q) (h : resolveWithin c strict budget j s = .error e s') :
    e = .recursionLimit .relatingTypes ∨ ∃ k ∈ Q, e ∈ failures c k := by
  revert s s' e
  refine resolveWithin_of_judge (P := fun _ m => ∀ {s s' e}, m s = .error e s' →
    e = .recursionLimit .relatingTypes ∨ ∃ k ∈ Q, e ∈ failures c k) hQ (fun _ => nofun) ?_ ?_ budget hj
  · intro j ask hj _ ha s s' e h
    have hjudged := Check.judge_judged j (rule c ask strict j) s
    rw [h] at hjudged
    cases hjudged with
    | denied => exact .inl rfl
    | failed _ _ _ _ hr =>
      obtain ⟨t, ht, -, hasks, hfails⟩ := rule_inquires c strict j
      rw [show rule c ask strict j = t.run ask from ht ask] at hr
      -- the failure is the rule's own, or that of a judgment it asked about
      obtain ⟨answers, s₁, -, ⟨he, -⟩ | ⟨k, hk, he⟩⟩ := Inquiry.run_error hr
      · exact .inr ⟨j, hj, hfails e he⟩
      · exact ha k (hasks k hk) he
  · intro j _ _ s s' e h
    have hjudged := Check.judge_judged j (throw (.recursionLimit .relatingTypes)) s
    rw [h] at hjudged
    cases hjudged with
    | denied => exact .inl rfl
    | failed _ _ _ _ hr => cases hr; exact .inl rfl

theorem blames_of_failures {c : Catalog} {roots : Set Handle} {k : Judgment} {e : Failure}
    (hk : k ∈ Judgment.among (c.reached roots)) (he : e ∈ failures c k) : ∃ u ∈ c.reachedTypes roots, c.Blames u e := by
  cases k with
  | type a b => exact he.elim (fun ha => ⟨a, hk.1, ha⟩) fun hb => ⟨b, hk.2, hb⟩
  | signature x y => exact he.elim
  | functionTag tag target => exact hk.elim

/-! ## Counting judgments -/

section
variable {S : Set Handle}

theorem among_distinct (hS : S.Finite) :
    { j ∈ Judgment.among S | isReflexive j = false }.Finite ∧
      { j ∈ Judgment.among S | isReflexive j = false }.ncard ≤
        ({ t | .type t ∈ S }.ncard * { t | .type t ∈ S }.ncard - { t | .type t ∈ S }.ncard) +
          ({ x | .signature x ∈ S }.ncard * { x | .signature x ∈ S }.ncard - { x | .signature x ∈ S }.ncard) := by
  classical
  have htypes : { t | Handle.type t ∈ S }.Finite := hS.preimage fun a _ b _ hab => by cases hab; rfl
  have hsignatures : { x | Handle.signature x ∈ S }.Finite := hS.preimage fun a _ b _ hab => by cases hab; rfl
  let T := htypes.toFinset.offDiag.image fun p => Judgment.type p.1 p.2
  let X := hsignatures.toFinset.offDiag.image fun p => Judgment.signature p.1 p.2
  have hsub : { j ∈ Judgment.among S | isReflexive j = false } ⊆ ((T ∪ X : Finset Judgment) : Set Judgment) := by
    intro j ⟨hj, hr⟩
    rw [Finset.mem_coe, Finset.mem_union]
    cases j with
    | type s t =>
      refine .inl (Finset.mem_image.mpr ⟨(s, t), ?_, rfl⟩)
      exact Finset.mem_offDiag.mpr ⟨htypes.mem_toFinset.mpr hj.1, htypes.mem_toFinset.mpr hj.2,
        by simpa [isReflexive] using hr⟩
    | signature x y =>
      refine .inr (Finset.mem_image.mpr ⟨(x, y), ?_, rfl⟩)
      exact Finset.mem_offDiag.mpr ⟨hsignatures.mem_toFinset.mpr hj.1, hsignatures.mem_toFinset.mpr hj.2,
        by simpa [isReflexive] using hr⟩
    | functionTag tag target => exact hj.elim
  refine ⟨(Finset.finite_toSet _).subset hsub, ?_⟩
  calc { j ∈ Judgment.among S | isReflexive j = false }.ncard
      ≤ (T ∪ X).card := by
        rw [← Set.ncard_coe_finset]
        exact Set.ncard_le_ncard hsub (Finset.finite_toSet _)
    _ ≤ T.card + X.card := Finset.card_union_le T X
    _ ≤ htypes.toFinset.offDiag.card + hsignatures.toFinset.offDiag.card :=
        Nat.add_le_add Finset.card_image_le Finset.card_image_le
    _ = _ := by
        rw [Finset.offDiag_card, Finset.offDiag_card, ← Set.ncard_eq_toFinset_card _ htypes,
          ← Set.ncard_eq_toFinset_card _ hsignatures]

variable {c : Catalog} {roots : Set Handle} (hroots : roots.Finite) {t : TypeRef} (ht : .type t ∈ roots)
include hroots ht

omit ht in
/-- There is a pair of each type and each signature with itself, and these are never in progress. -/
theorem among_reached_add_le :
    { j ∈ Judgment.among (c.reached roots) | isReflexive j = false }.Finite ∧
      { j ∈ Judgment.among (c.reached roots) | isReflexive j = false }.ncard + (c.reached roots).ncard ≤
        c.typeCount roots * c.typeCount roots + c.signatureCount roots * c.signatureCount roots := by
  obtain ⟨hfinite, hle⟩ := among_distinct (Catalog.finite_reached (c := c) hroots)
  have hreached := Catalog.ncard_reached (c := c) hroots
  have htypes : c.typeCount roots ≤ c.typeCount roots * c.typeCount roots := Nat.le_mul_self _
  have hsignatures : c.signatureCount roots ≤ c.signatureCount roots * c.signatureCount roots := Nat.le_mul_self _
  refine ⟨hfinite, ?_⟩
  change _ ≤ (c.typeCount roots * c.typeCount roots - c.typeCount roots) +
    (c.signatureCount roots * c.signatureCount roots - c.signatureCount roots) at hle
  omega

/-- One pair of a type with itself makes up for a stray. -/
theorem among_reached_distinct :
    { j ∈ Judgment.among (c.reached roots) | isReflexive j = false }.Finite ∧
      { j ∈ Judgment.among (c.reached roots) | isReflexive j = false }.ncard + 1 ≤
        c.typeCount roots * c.typeCount roots + c.signatureCount roots * c.signatureCount roots := by
  obtain ⟨hfinite, hle⟩ := among_reached_add_le (c := c) hroots
  have hpos : 0 < (c.reached roots).ncard := Catalog.ncard_reached_pos hroots ht
  exact ⟨hfinite, by omega⟩

theorem insert_reached_distinct (j : Judgment) :
    { k ∈ insert j (Judgment.among (c.reached roots)) | isReflexive k = false }.Finite ∧
      { k ∈ insert j (Judgment.among (c.reached roots)) | isReflexive k = false }.ncard + 1 ≤
        c.typeCount roots * c.typeCount roots + c.signatureCount roots * c.signatureCount roots + 1 := by
  obtain ⟨hfinite, hle⟩ := among_reached_distinct (c := c) hroots ht
  have hsub : { k ∈ insert j (Judgment.among (c.reached roots)) | isReflexive k = false } ⊆
      insert j { k ∈ Judgment.among (c.reached roots) | isReflexive k = false } := by
    intro k ⟨hk, hr⟩
    exact hk.imp id fun hk => ⟨hk, hr⟩
  have hcard := (Set.ncard_le_ncard hsub (hfinite.insert j)).trans (Set.ncard_insert_le j _)
  exact ⟨(hfinite.insert j).subset hsub, by omega⟩

omit ht in
theorem size_le_pairs (hlarge : UInt32.size ≤ (c.reached roots).ncard) :
    UInt32.size ≤ c.typeCount roots * c.typeCount roots + c.signatureCount roots * c.signatureCount roots := by
  have hle := Catalog.ncard_reached (c := c) hroots
  have htypes : c.typeCount roots ≤ c.typeCount roots * c.typeCount roots := Nat.le_mul_self _
  have hsignatures : c.signatureCount roots ≤ c.signatureCount roots * c.signatureCount roots := Nat.le_mul_self _
  omega

end

/-! ## Whole judgments -/

/-- With nothing in progress, a judgment nests no deeper than its limit and no deeper than `B`, and meets the limit
only if `B` exceeds it. -/
theorem resolve_ends {c : Catalog} {S : Set Handle} {Q : Set Judgment} {B : Nat} (hS : S.Finite) (hQ : AskClosed c Q)
    (hQS : Q ⊆ between S) (hcount : { j ∈ Q | isReflexive j = false }.Finite ∧
      { j ∈ Q | isReflexive j = false }.ncard + 1 ≤ B) (hlarge : UInt32.size ≤ S.ncard → UInt32.size ≤ B)
    {j : Judgment} (hj : j ∈ Q) {s : Context} {L : Limits} (hL : s.engine.options.subtypeProfile.limits = L)
    (hlimits : s.engine.subtypeGuard.limits = L) (hsynced : s.engine.subtypeGuard.Synced)
    (hidle : s.engine.subtypeGuard.depth = 0) :
    (∀ stop n, min L.maxDepth.toNat B < n →
      unrolled c s.engine.options.strictNullableSources stop n j s = resolve c j s) ∧
    ∀ activity s', resolve c j s = .error (.recursionLimit activity) s' → activity = .relatingTypes ∧
      (L.maxIterations.toNat = unboundedIterations → L.maxDepth.toNat ≤ B) := by
  have hB : ∀ s, Confined L { j ∈ Q | isReflexive j = false } S s →
      s.engine.subtypeGuard.depth ≤ min L.maxDepth.toNat B := by
    intro s hs
    refine Nat.le_min.mpr ⟨hs.depth, ?_⟩
    by_cases hcard : S.ncard < UInt32.size
    · exact (hs.depth_le hcount.1 hcard).trans hcount.2
    · have hmax : L.maxDepth.toNat < UInt32.size := L.maxDepth.toNat_lt
      have hlarge := hlarge (by omega)
      have hdepth := hs.depth
      omega
  have hs : Confined L { j ∈ Q | isReflexive j = false } S s := confined_of_idle hlimits hsynced hidle
  have hall : ∀ stop n, min L.maxDepth.toNat B < n →
      unrolled c s.engine.options.strictNullableSources stop n j s = resolve c j s := by
    intro stop n hn
    have hagrees : Agrees
        (fun s => Confined L { j ∈ Q | isReflexive j = false } S s ∧ s.engine.subtypeGuard.depth = 0)
        (unrolled c s.engine.options.strictNullableSources stop n j)
        (resolveWithin c s.engine.options.strictNullableSources L.maxDepth.toNat j) :=
      unrolled_agrees hS hQ hQS hB (by omega) (by omega) hj
    rw [(hagrees s ⟨hs, hidle⟩).1, ← hL]
    rfl
  refine ⟨hall, fun activity s' h => ?_⟩
  rw [← hall (fun _ => pure true) (min L.maxDepth.toNat B + 1) (Nat.lt_succ_self _)] at h
  obtain ⟨hactivity, hlimit⟩ := (spends_unrolled hS hQ hQS hB _ hj).limit hs h
  exact ⟨hactivity, fun hunbounded => (hlimit hunbounded).trans (Nat.min_le_right _ _)⟩

/-! ## Judgments on tags -/

section
variable {c : Catalog} {roots : Set Handle} {tag u : TypeRef} (hu : u ∈ c.reachedTypes roots)
include hu

theorem tagMatches_ends (hroots : roots.Finite) {t : TypeRef} (ht : .type t ∈ roots) (htag : .type tag ∈ roots)
    {o : Options} {s : Context} (ho : s.engine.options = o)
    (hguard : (Guard.ofProfile o.subtypeProfile).Restored s.engine.subtypeGuard) :
    let pairs := c.typeCount roots * c.typeCount roots + c.signatureCount roots * c.signatureCount roots
    let limits := o.subtypeProfile.limits
    (∀ stop n, min limits.maxDepth.toNat (pairs + 1) < n →
      unrolled c o.strictNullableSources stop n (.functionTag tag u) s = tagMatches c tag u s) ∧
    ∀ activity s', tagMatches c tag u s = .error (.recursionLimit activity) s' →
      limits.maxIterations.toNat = unboundedIterations → limits.maxDepth.toNat ≤ pairs + 1 := by
  intro pairs limits
  have hj : Judgment.functionTag tag u ∈ between (c.reached roots) := ⟨Catalog.mem_reached htag, hu⟩
  obtain ⟨hall, hlimit⟩ := resolve_ends (L := limits) (Catalog.finite_reached (c := c) hroots)
    (askClosed_insert Catalog.reached_closed hj) (Set.insert_subset hj among_subset_between)
    (insert_reached_distinct hroots ht (.functionTag tag u))
    (fun hlarge => (size_le_pairs hroots hlarge).trans (by omega))
    (Set.mem_insert _ _) (by rw [ho]) hguard.limits (hguard.synced rfl) (hguard.depth rfl)
  rw [ho] at hall
  exact ⟨hall, fun activity s' h hunbounded => (hlimit activity s' h).2 hunbounded⟩

/-- A judgment on two types that have shapes fails like those on types do. -/
theorem tagMatches_error (htag : .type tag ∈ c.reached roots) {own wanted : Shape} (hown : c.shape tag = .ok own)
    (hwanted : c.shape u = .ok wanted) {s s' : Context} {e : Failure} (h : tagMatches c tag u s = .error e s') :
    (∃ u ∈ c.reachedTypes roots, c.Blames u e) ∨ e = .recursionLimit .relatingTypes := by
  have hj : Judgment.functionTag tag u ∈ between (c.reached roots) := ⟨htag, hu⟩
  obtain he | ⟨k, hk, he⟩ := resolveWithin_error (askClosed_insert Catalog.reached_closed hj) (Set.mem_insert _ _) h
  · exact .inr he
  · obtain rfl | hk := hk
    · rcases he with he | he
      · rw [hown] at he
        cases he
      · rw [hwanted] at he
        cases he
    · exact .inl (blames_of_failures hk he)

end

end Compatibility

end TypeContracts
