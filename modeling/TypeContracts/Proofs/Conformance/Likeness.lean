import TypeContracts.Proofs.Conformance.Denials
import TypeContracts.Proofs.Engine.Naming

/-!
# Checks that do not depend on identities

Two contexts are alike if they know the same about the same judgments and
checks, and what has been written to their journals since `base` and `base'` is
the same but for the numbers of identities (`Context.Alike`). From contexts that
are alike a check ends in the same way, in contexts that are alike
(`Insensitive`). This holds of every question.
-/

namespace TypeContracts

/-! ## Journals -/

namespace Log

def Event.hidden (key : JudgmentKey) : JudgmentKey := ⟨key.kind, .invalid, .invalid⟩

/-- The event without numbers of identities, with queries counted from `base`. -/
def Event.anonymous (base : Nat) : Event → Event
  | judgmentStart query key => judgmentStart (query - base) (hidden key)
  | judgmentEnd query kind result cacheHit => judgmentEnd (query - base) kind result cacheHit
  | cycleAssumed key => cycleAssumed (hidden key)
  | notCached key => notCached (hidden key)
  | valueRevisited _ => valueRevisited .invalid
  | registering _ function => registering .invalid function
  | e => e

theorem Event.anonymous_passes (base : Nat) (e : Event) :
    (e.anonymous base).level = e.level ∧ (e.anonymous base).target = e.target ∧
      (e.anonymous base).hasField = e.hasField := by
  refine ⟨by cases e <;> rfl, by cases e <;> rfl, funext fun name => ?_⟩
  cases e <;> simp [hasField, fields, anonymous, identityField, hidden]

namespace Journal

variable {base base' journal journal' : Journal}

/-- The same has been added to the two journals, the numbers of identities apart. -/
structure Alike (base base' journal journal' : Journal) : Prop where
  filter : journal'.filter = journal.filter
  queries : ∃ n, journal.nextQuery = base.nextQuery + n ∧ journal'.nextQuery = base'.nextQuery + n
  events : ∃ es es', journal.events.toList = base.events.toList ++ es ∧
    journal'.events.toList = base'.events.toList ++ es' ∧
    es'.map (Event.anonymous base'.nextQuery) = es.map (Event.anonymous base.nextQuery)
  notices : ∃ ns, journal.notices.toList = base.notices.toList ++ ns ∧
    journal'.notices.toList = base'.notices.toList ++ ns

theorem Alike.start (hfilter : journal'.filter = journal.filter) : Alike journal journal' journal journal' :=
  ⟨hfilter, ⟨0, rfl, rfl⟩, ⟨[], [], by simp, by simp, rfl⟩, ⟨[], by simp, by simp⟩⟩

section
variable (h : Alike base base' journal journal')
include h

theorem Alike.record {e e' : Event} (he : e'.anonymous base'.nextQuery = e.anonymous base.nextQuery) :
    Alike base base' (journal.record e) (journal'.record e') := by
  obtain ⟨hlevel, htarget, hfield⟩ := e.anonymous_passes base.nextQuery
  obtain ⟨hlevel', htarget', hfield'⟩ := e'.anonymous_passes base'.nextQuery
  have hadmits : journal'.filter.admits e'.level e'.target e'.hasField =
      journal.filter.admits e.level e.target e.hasField := by
    rw [← hlevel, ← htarget, ← hfield, ← hlevel', ← htarget', ← hfield', he, h.filter]
  obtain ⟨es, es', hes, hes', heq⟩ := h.events
  unfold Journal.record
  rw [hadmits]
  split
  · refine ⟨h.filter, h.queries, ⟨es ++ [e], es' ++ [e'], ?_, ?_, ?_⟩, h.notices⟩
    · simp [hes]
    · simp [hes']
    · simp [heq, he]
  · exact h

theorem Alike.traces : journal'.tracesJudgments = journal.tracesJudgments := by
  unfold Journal.tracesJudgments
  rw [h.filter]

theorem Alike.query : journal'.query?.map (· - base'.nextQuery) = journal.query?.map (· - base.nextQuery) := by
  obtain ⟨n, hn, hn'⟩ := h.queries
  unfold Journal.query?
  rw [h.traces]
  split
  · simp [hn, hn']
  · rfl

theorem Alike.notify (message : String) (location : Location) :
    Alike base base' (journal.notify message location) (journal'.notify message location) := by
  obtain ⟨ns, hns, hns'⟩ := h.notices
  refine ⟨h.filter, h.queries, h.events, ⟨ns ++ [(message, location)], ?_, ?_⟩⟩
  · simp [Journal.notify, hns]
  · simp [Journal.notify, hns']

variable {key key' : JudgmentKey} (hkind : key'.kind = key.kind)

section
include hkind

theorem Alike.asked : Alike base base' (journal.asked key) (journal'.asked key') := by
  obtain ⟨n, hn, hn'⟩ := h.queries
  unfold Journal.asked
  rw [h.traces]
  split
  · have hcounted : Alike base base' { journal with nextQuery := journal.nextQuery + 1 }
        { journal' with nextQuery := journal'.nextQuery + 1 } :=
      ⟨h.filter, ⟨n + 1, by simp [hn, Nat.add_assoc], by simp [hn', Nat.add_assoc]⟩, h.events, h.notices⟩
    apply hcounted.record
    simp [Event.anonymous, Event.hidden, hkind, hn, hn']
  · exact h

theorem Alike.kept {e e' : Engine} (hactive : e'.subtypeGuard.isActive = e.subtypeGuard.isActive)
    (hassumptions : e'.cycleAssumptions = e.cycleAssumptions) (before : Nat) (result : Bool) :
    Alike base base' (journal.kept e key before result) (journal'.kept e' key' before result) := by
  unfold Journal.kept
  rw [hactive, hassumptions]
  split
  · exact h
  · apply h.record
    simp [Event.anonymous, Event.hidden, hkind]

variable {query query' : Option Nat} (hquery : query'.map (· - base'.nextQuery) = query.map (· - base.nextQuery))
include hquery

theorem Alike.answered (result cacheHit : Bool) :
    Alike base base' (journal.answered query key.kind result cacheHit)
      (journal'.answered query' key'.kind result cacheHit) := by
  unfold Journal.answered
  cases query with
  | none =>
    cases query' with
    | none => exact h
    | some q' => cases hquery
  | some q =>
    cases query' with
    | none => cases hquery
    | some q' =>
      apply h.record
      simpa [Event.anonymous, hkind] using hquery

theorem Alike.assumed : Alike base base' (journal.assumed query key) (journal'.assumed query' key') := by
  have hsome : query'.isSome = query.isSome := by simpa using congrArg Option.isSome hquery
  unfold Journal.assumed
  rw [hsome]
  split
  · apply h.record
    simp [Event.anonymous, Event.hidden, hkind]
  · exact h

end

end

end Journal

end Log

/-! ## Engines -/

namespace Engine

variable {n n' : Naming Judgment JudgmentKey} {m m' : Naming (Nat × TypeRef) ValueCheck} {e e' : Engine}

structure Alike (n n' : Naming Judgment JudgmentKey) (m m' : Naming (Nat × TypeRef) ValueCheck) (e e' : Engine) :
    Prop where
  options : e'.options = e.options
  notifies : e'.notifies = e.notifies
  uncachedJudgments : e'.uncachedJudgments = e.uncachedJudgments
  cycleAssumptions : e'.cycleAssumptions = e.cycleAssumptions
  cache : Cache.Alike n n' e.cache e'.cache
  subtypeGuard : Guard.Alike n n' e.subtypeGuard e'.subtypeGuard
  valueGuard : Guard.Alike m m' e.valueGuard e'.valueGuard

theorem Alike.reset (h : Alike n n' m m' e e') : Alike n n' m m' e.reset e'.reset where
  options := h.options
  notifies := h.notifies
  uncachedJudgments := rfl
  cycleAssumptions := rfl
  cache := Cache.alike_empty n n'
  subtypeGuard := Guard.alike_reset n n' h.subtypeGuard.limits
  valueGuard := Guard.alike_reset m m' h.valueGuard.limits

section
variable {j : Judgment} {key key' : JudgmentKey} (h : Alike n n' m m' e e') (hj : n.name? j = some key)
  (hj' : n'.name? j = some key')
include h hj hj'

theorem Alike.asked : Alike n n' m m' (e.asked key) (e'.asked key') :=
  { h with cache := h.cache.lookup hj hj' }

theorem Alike.enter : (e'.subtypeGuard.renewed.enter key').1 = (e.subtypeGuard.renewed.enter key).1 :=
  (h.subtypeGuard.renewed.enter hj hj').1

theorem Alike.tried : Alike n n' m m' (e.tried key) (e'.tried key') :=
  { h.asked hj hj' with subtypeGuard := (h.subtypeGuard.renewed.enter hj hj').2 }

theorem Alike.assumed : Alike n n' m m' { e.tried key with cycleAssumptions := e.cycleAssumptions + 1 }
    { e'.tried key' with cycleAssumptions := e'.cycleAssumptions + 1 } :=
  { h.tried hj hj' with cycleAssumptions := congrArg (· + 1) h.cycleAssumptions }

theorem Alike.begun : Alike n n' m m' (e.begun key) (e'.begun key') :=
  { h.tried hj hj' with uncachedJudgments := congrArg (· + 1) h.uncachedJudgments }

theorem Alike.left : Alike n n' m m' (e.left key) (e'.left key') :=
  { h with subtypeGuard := h.subtypeGuard.leave hj hj' }

theorem Alike.kept (before : Nat) (b : Bool) : Alike n n' m m' (e.kept key before b) (e'.kept key' before b) := by
  unfold Engine.kept Guard.isActive
  rw [h.subtypeGuard.depth, h.cycleAssumptions]
  split
  · exact { h with cycleAssumptions := rfl, cache := h.cache.insert hj hj' b }
  · exact h

end

section
variable {p : Nat × TypeRef} {key key' : ValueCheck} (h : Alike n n' m m' e e') (hp : m.name? p = some key)
  (hp' : m'.name? p = some key')
include h hp hp'

theorem Alike.valueEnter : (e'.valueGuard.renewed.enter key').1 = (e.valueGuard.renewed.enter key).1 :=
  (h.valueGuard.renewed.enter hp hp').1

theorem Alike.valueTried : Alike n n' m m' (e.valueTried key) (e'.valueTried key') :=
  { h with valueGuard := (h.valueGuard.renewed.enter hp hp').2 }

theorem Alike.valueLeft : Alike n n' m m' (e.valueLeft key) (e'.valueLeft key') :=
  { h with valueGuard := h.valueGuard.leave hp hp' }

end

end Engine

/-! ## Contexts -/

structure Context.Alike (base base' : Log.Journal) (s s' : Context) : Prop where
  identities : s.identities.Shadows s'.identities
  engine : Engine.Alike identities.sound.judgments identities.sound'.judgments identities.sound.checks
    identities.sound'.checks s.engine s'.engine
  journal : Log.Journal.Alike base base' s.journal s'.journal

theorem Engine.Alike.grows {ids ids' later later' : Identities} {e e' : Engine} {h : ids.Shadows ids'}
    (he : Engine.Alike h.sound.judgments h.sound'.judgments h.sound.checks h.sound'.checks e e')
    (hg : ids.Grows later) (hg' : ids'.Grows later') (hl : later.Shadows later') :
    Engine.Alike hl.sound.judgments hl.sound'.judgments hl.sound.checks hl.sound'.checks e e' :=
  { he with
    cache := he.cache.extend (hg.judgments _ _) (hg'.judgments _ _)
    subtypeGuard := he.subtypeGuard.extend (hg.judgments _ _) (hg'.judgments _ _)
    valueGuard := he.valueGuard.extend (hg.checks _ _) (hg'.checks _ _) }

theorem keeps_sound_judge {m : Check Bool} (hm : Keeps (fun s => s.identities.Sound) m) (j : Judgment) :
    Keeps (fun s => s.identities.Sound) (Check.judge j m) := by
  refine ⟨Check.judge_follows hm.follows, fun {s} hs hroom => ?_⟩
  rcases hk : s.identities.keyed j with ⟨key, ids⟩
  have hsound := hs.keyed (j := j)
  rw [hk] at hsound
  have hids := (hsound ((Check.judge_grows hm.follows hk).hasRoom hroom)).1
  have hkeeps := hm.keeps (s := ⟨s.engine.begun key, ids, s.journal.asked key⟩) hids
  rw [Check.judge_run j m s hk] at hroom ⊢
  split at hroom
  · exact hids
  · split at hroom
    · split at hroom <;> rename_i hr <;> rw [hr] at hkeeps <;> exact hkeeps hroom
    · exact hids
    · exact hids
    · exact hids

/-- From contexts that are alike the check ends alike, as long as there is room for identities. -/
structure Insensitive {α : Type} (m : Check α) : Prop extends Keeps (fun s => s.identities.Sound) m where
  filter : ∀ s, (stateAfter (m s)).journal.filter = s.journal.filter
  alike : ∀ {base base' s s'}, Context.Alike base base' s s' → (stateAfter (m s)).identities.HasRoom →
    outcome (m s') = outcome (m s) ∧ Context.Alike base base' (stateAfter (m s)) (stateAfter (m s'))

namespace Insensitive

variable {α β : Type} {m : Check α}

theorem pure (a : α) : Insensitive (Pure.pure a : Check α) := ⟨.pure a, fun _ => rfl, fun h _ => ⟨rfl, h⟩⟩

theorem throw (e : Failure) : Insensitive (MonadExcept.throw e : Check α) :=
  ⟨.throw e, fun _ => rfl, fun h _ => ⟨rfl, h⟩⟩

/-- Both runs answer the same, or fail for the same cause. -/
theorem ends (hm : Insensitive m) {base base' : Log.Journal} {s s' : Context} (h : Context.Alike base base' s s')
    (hroom : (stateAfter (m s)).identities.HasRoom) :
    ∃ s₁ s₁', ((∃ a, m s = .ok a s₁ ∧ m s' = .ok a s₁') ∨ ∃ e, m s = .error e s₁ ∧ m s' = .error e s₁') ∧
      s.identities.Grows s₁.identities ∧ s'.identities.Grows s₁'.identities ∧ Context.Alike base base' s₁ s₁' := by
  obtain ⟨hsame, halike⟩ := hm.alike h hroom
  refine ⟨_, _, ?_, (hm.follows s).identities, (hm.follows s').identities, halike⟩
  cases hr : m s with
  | ok a s₁ =>
    rw [hr] at hsame
    exact .inl ⟨a, rfl, outcome_eq_ok.mp hsame⟩
  | error e s₁ =>
    cases hr' : m s' with
    | ok a s₁' => rw [hr, hr'] at hsame; cases hsame
    | error e' s₁' =>
      rw [hr, hr'] at hsame
      cases hsame
      exact .inr ⟨e, rfl, rfl⟩

theorem bind {f : α → Check β} (hm : Insensitive m) (hf : ∀ a, Insensitive (f a)) : Insensitive (m >>= f) := by
  refine ⟨hm.toKeeps.bind fun a => (hf a).toKeeps, fun s => ?_, fun {base base' s s'} h hroom => ?_⟩
  · have hs := hm.filter s
    simp only [Bind.bind, EStateM.bind]
    cases hr : m s with
    | ok a s₁ => rw [hr] at hs; exact ((hf a).filter s₁).trans hs
    | error e s₁ => rw [hr] at hs; exact hs
  · have hfirst : (stateAfter (m s)).identities.HasRoom := by
      simp only [Bind.bind, EStateM.bind] at hroom
      cases hr : m s with
      | ok a s₁ => rw [hr] at hroom; exact ((hf a).follows s₁).identities.hasRoom hroom
      | error e s₁ => rw [hr] at hroom; exact hroom
    simp only [Bind.bind, EStateM.bind] at hroom ⊢
    obtain ⟨s₁, s₁', ⟨a, hr, hr'⟩ | ⟨e, hr, hr'⟩, -, -, halike⟩ := hm.ends h hfirst
    · rw [hr] at hroom ⊢
      rw [hr']
      exact (hf a).alike halike hroom
    · rw [hr, hr']
      exact ⟨rfl, halike⟩

theorem compositional : Compositional Set.univ fun m : Check Bool => Insensitive m :=
  ⟨pure, fun _ => throw _, bind⟩

/-! ## Judgments -/

theorem filter_judge {m : Check Bool} (hm : Insensitive m) (j : Judgment) (s : Context) :
    (stateAfter (Check.judge j m s)).journal.filter = s.journal.filter := by
  rcases hk : s.identities.keyed j with ⟨key, ids⟩
  have hcomputed := hm.filter ⟨s.engine.begun key, ids, s.journal.asked key⟩
  rw [Check.judge_run j m s hk]
  split
  · simp
  · split
    · split <;> rename_i hr <;> rw [hr] at hcomputed <;> simpa [stateAfter] using hcomputed
    · simp
    · simp [stateAfter]
    · simp [stateAfter]

theorem judge {m : Check Bool} (hm : Insensitive m) (j : Judgment) : Insensitive (Check.judge j m) := by
  refine ⟨keeps_sound_judge hm.toKeeps j, hm.filter_judge j, fun {base base' s s'} h hroom => ?_⟩
  -- both draw the identities of the source and the target first, and are alike by these too
  have hdrawn := h.identities.keyed (j := j)
  have hg := s.identities.grows_keyed j
  have hg' := s'.identities.grows_keyed j
  rcases hk : s.identities.keyed j with ⟨key, ids⟩
  rcases hk' : s'.identities.keyed j with ⟨key', ids'⟩
  rw [hk] at hdrawn hg
  rw [hk'] at hdrawn hg'
  obtain ⟨hids, hkey, hkey'⟩ := hdrawn ((Check.judge_grows hm.follows hk).hasRoom hroom)
  have he := Engine.Alike.grows (h := h.identities) h.engine hg hg' hids
  have hkind : key'.kind = key.kind := hkey'.kind.trans hkey.kind.symm
  have hn := Identities.key?_eq_some.mpr hkey
  have hn' := Identities.key?_eq_some.mpr hkey'
  have hasked := h.journal.asked hkind
  have hquery := h.journal.query
  rw [Check.judge_run j m s hk] at hroom ⊢
  rw [Check.judge_run j m s' hk', he.cache.peek hn hn', he.enter hn hn']
  cases hp : s.engine.cache.peek key with
  | some b => exact ⟨rfl, hids, he.asked hn hn', hasked.answered hkind hquery b true⟩
  | none =>
    rw [hp] at hroom
    cases ha : (s.engine.subtypeGuard.renewed.enter key).1 with
    | cycle => exact ⟨rfl, hids, he.assumed hn hn', hasked.assumed hkind hquery⟩
    | depthExceeded => exact ⟨rfl, hids, he.tried hn hn', hasked⟩
    | iterationExceeded => exact ⟨rfl, hids, he.tried hn hn', hasked⟩
    | entered =>
      rw [ha] at hroom
      have hbegun : Context.Alike base base' ⟨s.engine.begun key, ids, s.journal.asked key⟩
          ⟨s'.engine.begun key', ids', s'.journal.asked key'⟩ := ⟨hids, he.begun hn hn', hasked⟩
      have hfirst : (stateAfter (m ⟨s.engine.begun key, ids, s.journal.asked key⟩)).identities.HasRoom := by
        dsimp only at hroom
        split at hroom <;> rename_i hr <;> rw [hr] <;> exact hroom
      obtain ⟨s₁, s₁', hends, hg, hg', hlater⟩ := hm.ends hbegun hfirst
      have hn := hg.judgments hids.sound hlater.identities.sound hn
      have hn' := hg'.judgments hids.sound' hlater.identities.sound' hn'
      have hleft := hlater.engine.left hn hn'
      dsimp only
      obtain ⟨b, hr, hr'⟩ | ⟨e, hr, hr'⟩ := hends
      · have hactive : (s₁'.engine.left key').subtypeGuard.isActive = (s₁.engine.left key).subtypeGuard.isActive :=
          congrArg (· != 0) hleft.subtypeGuard.depth
        rw [hr, hr', he.cycleAssumptions]
        refine ⟨rfl, hlater.identities, hleft.kept hn hn' _ b, ?_⟩
        exact (hlater.journal.kept hkind hactive hleft.cycleAssumptions _ b).answered hkind hquery b false
      · rw [hr, hr']
        exact ⟨rfl, hlater.identities, hleft, hlater.journal⟩

theorem resolveWithin (c : Catalog) (strict : Bool) (n : Nat) (j : Judgment) :
    Insensitive (Compatibility.resolveWithin c strict n j) := by
  refine Compatibility.resolveWithin_of_judge (P := fun _ m => Insensitive m) (Compatibility.askClosed_univ c)
    (fun _ => pure true) ?_ (fun j _ _ => (throw _).judge j) n (Set.mem_univ j)
  intro j ask _ _ ha
  exact (Compatibility.rule_of_asked compositional strict ha (Set.subset_univ _)).judge j

/-- Options are the same in contexts that are alike. -/
theorem read {f : Options → Check α} (hf : ∀ o, Insensitive (f o)) :
    Insensitive (do f (← MonadState.get).engine.options : Check α) := by
  refine ⟨Keeps.get.bind fun s => (hf s.engine.options).toKeeps, fun s => (hf s.engine.options).filter s,
    fun {base base' s s'} h hroom => ?_⟩
  have hrun : ∀ s : Context, (do f (← MonadState.get).engine.options : Check α) s = f s.engine.options s := fun _ => rfl
  rw [hrun] at hroom
  rw [hrun, hrun, h.engine.options]
  exact (hf _).alike h hroom

theorem resolve (c : Catalog) (j : Judgment) : Insensitive (Compatibility.resolve c j) :=
  read fun o => resolveWithin c o.strictNullableSources o.subtypeProfile.limits.maxDepth.toNat j

/-! ## Value checks -/

theorem filter_guarded {m : Check Bool} (hm : Insensitive m) (value : Nat) (t : TypeRef) (s : Context) :
    (stateAfter (Conformance.guarded value t m s)).journal.filter = s.journal.filter := by
  rcases hi : s.identities.assign (.type t) with ⟨i, ids⟩
  have hcomputed := hm.filter ⟨s.engine.valueTried ⟨value, i⟩, ids, s.journal⟩
  rw [Conformance.guarded_run value t m s hi]
  split
  · split <;> rename_i hr <;> rw [hr] at hcomputed <;> exact hcomputed
  · simp
  · rfl
  · rfl

theorem guarded {m : Check Bool} (hm : Insensitive m) (value : Nat) (t : TypeRef) :
    Insensitive (Conformance.guarded value t m) := by
  refine ⟨Conformance.keeps_guarded (fun hs => hs) (fun _ _ _ _ hs => hs) hm.toKeeps,
    hm.filter_guarded value t, fun {base base' s s'} h hroom => ?_⟩
  have hdrawn := h.identities.assign (g := .type t)
  have hg := s.identities.grows_assign (.type t)
  have hg' := s'.identities.grows_assign (.type t)
  rcases hi : s.identities.assign (.type t) with ⟨i, ids⟩
  rcases hi' : s'.identities.assign (.type t) with ⟨i', ids'⟩
  rw [hi] at hdrawn hg
  rw [hi'] at hdrawn hg'
  obtain ⟨hids, htype, htype'⟩ := hdrawn ((Conformance.guarded_grows hm.follows hi).hasRoom hroom)
  have he := Engine.Alike.grows (h := h.identities) h.engine hg hg' hids
  have hn : hids.sound.checks.name? (value, t) = some ⟨value, i⟩ := Option.map_eq_some_iff.mpr ⟨i, htype, rfl⟩
  have hn' : hids.sound'.checks.name? (value, t) = some ⟨value, i'⟩ := Option.map_eq_some_iff.mpr ⟨i', htype', rfl⟩
  rw [Conformance.guarded_run value t m s hi] at hroom ⊢
  rw [Conformance.guarded_run value t m s' hi', he.valueEnter hn hn']
  cases ha : (s.engine.valueGuard.renewed.enter ⟨value, i⟩).1 with
  | cycle => exact ⟨rfl, hids, he.valueTried hn hn', h.journal.record rfl⟩
  | depthExceeded => exact ⟨rfl, hids, he.valueTried hn hn', h.journal⟩
  | iterationExceeded => exact ⟨rfl, hids, he.valueTried hn hn', h.journal⟩
  | entered =>
    rw [ha] at hroom
    have htried : Context.Alike base base' ⟨s.engine.valueTried ⟨value, i⟩, ids, s.journal⟩
        ⟨s'.engine.valueTried ⟨value, i'⟩, ids', s'.journal⟩ := ⟨hids, he.valueTried hn hn', h.journal⟩
    have hfirst : (stateAfter (m ⟨s.engine.valueTried ⟨value, i⟩, ids, s.journal⟩)).identities.HasRoom := by
      dsimp only at hroom
      split at hroom <;> rename_i hr <;> rw [hr] <;> exact hroom
    obtain ⟨s₁, s₁', hends, hg, hg', hlater⟩ := hm.ends htried hfirst
    have hn := hg.checks hids.sound hlater.identities.sound hn
    have hn' := hg'.checks hids.sound' hlater.identities.sound' hn'
    have hleft := hlater.engine.valueLeft hn hn'
    dsimp only
    obtain ⟨b, hr, hr'⟩ | ⟨e, hr, hr'⟩ := hends
    · rw [hr, hr']
      exact ⟨rfl, hlater.identities, hleft, hlater.journal⟩
    · rw [hr, hr']
      exact ⟨rfl, hlater.identities, hleft, hlater.journal⟩

theorem isType (c : Catalog) (h : Heap) (v : Value) (t : TypeRef) : Insensitive (Conformance.isType c h v t) :=
  read fun o => Conformance.checkWithin_of_parts (S := Set.univ) (V := Set.univ) compositional (by simp) (by simp)
    (fun _ _ => Set.mem_univ _) (fun _ _ _ _ hm => hm.guarded _ _) (fun _ _ _ _ => resolve c _) (Set.mem_univ _)
    ((o.valueProfile.limits.maxDepth.toNat + 1) * (c.types.size + 2)) (fun _ => Set.mem_univ _) (Set.mem_univ _)

end Insensitive

end TypeContracts
