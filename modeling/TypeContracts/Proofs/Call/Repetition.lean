import TypeContracts.Proofs.Call.Course
import TypeContracts.Proofs.Conformance.Turns

/-!
# Answers are kept

In a run that is never reset the cache only grows, one absent key at a time. The
answer to a question that was asked with nothing in progress is in the cache when
the question has been answered, so a later repetition finds it there.

A key is made of identities, and the last number of their counter is none: a
descriptor that draws it is given another one when it is met again. All of it
is said for questions whose descriptors do not draw it (`Identities.Serves`).
-/

namespace TypeContracts

open Relation (ReflTransGen)

/-! ## Runs without a reset -/

/-- A run that is never reset: requests, whether they succeed or fail, and what is drawn from the counter of
identities and noted in the journal by others. -/
inductive World.Continues (start : World) : World → Prop
  | start : Continues start start
  | performed {w} (budget : Nat) (r : Request) : Continues start w →
      (∀ w', .asked .reset w' ∉ Action.course budget r w) → Continues start (stateAfter (Action.performWithin budget r w))
  | drawn {w} (g : Handle) : Continues start w →
      Continues start { w with context.identities := (w.context.identities.assign g).2 }
  | noted {w} (journal notifies) : Continues start w →
      Continues start { w with context := { w.context with engine := { w.context.engine with notifies }, journal } }

namespace Context.Onward

variable (s : Context)

theorem draw (g : Handle) : s.Onward { s with identities := (s.identities.assign g).2 } :=
  ⟨⟨rfl, s.identities.grows_assign g, .refl _, .refl _, Nat.le_refl _⟩, fun _ => .refl⟩

theorem note (journal : Log.Journal) (notifies : Bool) :
    s.Onward { s with engine := { s.engine with notifies }, journal } :=
  ⟨⟨rfl, .refl _, .refl _, .refl _, Nat.le_refl _⟩, fun _ => .single ⟨Nat.le_refl _, .aside _ _⟩⟩

theorem parts (c : Catalog) (h : Heap) : Check.Parts c h fun _ m => Makes Context.Onward m where
  toSequential := Makes.sequential
  resolve j := .single fun s => Compatibility.resolve_onward c j s
  isType v t := .single fun s => Conformance.isType_onward c h v t s
  identity g := .single fun s => draw s g
  emit e := .single fun s => note s _ s.engine.notifies
  notify message location := by
    intro s
    simp only [modify, modifyGet, MonadStateOf.modifyGet, EStateM.modifyGet, stateAfter_ok]
    split
    · exact .single (note s _ s.engine.notifies)
    · exact .refl

end Context.Onward

theorem onward_of_makes {s s' : Context} (h : ReflTransGen Context.Onward s s') : s.Onward s' := by
  induction h with
  | refl => exact .refl _
  | tail _ h ih => exact ih.trans h

namespace World

def Onward (w w' : World) : Prop := w.context.Onward w'.context

theorem Onward.parts : Action.Parts (fun _ _ _ m => Makes Context.Onward m) fun _ m => Makes World.Onward m where
  toSequential := Makes.sequential
  checks := Context.Onward.parts
  check hf w := by
    rw [stateAfter_check]
    exact .single (onward_of_makes (hf w.catalog w.heap w.context))
  addType d := .single fun w => .refl w.context
  addSignature s := .single fun w => .refl w.context
  defineObject t shape := by
    intro w
    unfold Action.defineObject
    split
    · exact .single (Context.Onward.refl w.context)
    · exact .refl
  modifyHeap f := .single fun w => .refl w.context
  attempt hm hf w := (hm w).trans (hf _ _)

theorem onward_of_moves {w w' : World} (h : ReflTransGen World.Onward w w') : w.context.Onward w'.context := by
  induction h with
  | refl => exact .refl _
  | tail _ h ih => exact ih.trans h

theorem Continues.onward {w w' : World} (h : w.Continues w') : w.context.Onward w'.context := by
  induction h with
  | start => exact .refl _
  | @performed w' budget r _ hreset ih =>
    have hcharts : Charts World.Onward (· ≠ .reset) (Action.performWithin budget r) (Action.course budget r) :=
      .performWithin Onward.parts.steps (fun h => absurd rfl h) budget r
    refine ih.trans (onward_of_moves (hcharts w' ?_).1)
    intro r' w'' hasked heq
    exact hreset w'' (heq ▸ hasked)
  | @drawn w' g _ ih => exact ih.trans (.draw w'.context g)
  | @noted w' journal notifies _ ih => exact ih.trans (.note w'.context journal notifies)

end World

/-! ## Questions that are repeated -/

namespace Compatibility

variable {c : Catalog} {j : Judgment} {s s' : Context} {b : Bool}

/-- An answer that is found with nothing else in progress is in the cache afterwards. -/
theorem resolve_keeps (hj : isReflexive j = false) (he : s.engine.subtypeGuard.Empty)
    (hserves : s.identities.Serves {j.source, j.target}) (hr : resolve c j s = .ok b s') :
    ∃ key, s'.identities.IsKey key j ∧ s'.engine.cache.peek key = some b := by
  obtain ⟨m, hm, heq⟩ := resolve_eq_judge c hj s
  rw [heq] at hr
  have hfollows := Check.judge_follows (fun s => (hm s).follows) (j := j) s
  have hkey := (hserves.keyed (by simp) (j := j) (by simp) (by simp)).2
  rcases hk : s.identities.keyed j with ⟨key, ids⟩
  have hgrows := Check.judge_grows (fun s => (hm s).follows) hk
  rw [hk] at hkey
  rw [hr] at hfollows hgrows
  refine ⟨key, hkey.grows hgrows, ?_⟩
  have hjudged := Check.judge_judged j m s
  rw [hr] at hjudged
  cases hjudged with
  | hit journal hk' hp =>
    cases hk.symm.trans hk'
    simp only [Engine.asked, Cache.peek_lookup]
    exact hp
  | assumed journal hk' hp ha =>
    obtain ⟨hsynced, hdepth⟩ := Guard.empty_iff.mp he
    have hv := Guard.isVisiting_of_cycle ha
    rw [s.engine.subtypeGuard.restored_renewed.visiting hsynced, Guard.isVisiting_of_depth hsynced hdepth] at hv
    cases hv
  | @computed key' ids' b s' journal journal' hk' hp ha hrun =>
    cases hk.symm.trans hk'
    have hempty := hfollows.subtypeGuard.empty he
    simp only [stateAfter_ok, Engine.kept_subtypeGuard] at hempty
    have hinactive : (s'.engine.left key).subtypeGuard.isActive = false := by simp [Guard.isActive, hempty.1]
    simp [Engine.kept, hinactive]

theorem resolve_of_peek (hj : isReflexive j = false) {key : JudgmentKey} (hk : s.identities.IsKey key j)
    (hp : s.engine.cache.peek key = some b) : ∃ journal, resolve c j s =
      .ok b ⟨{ s.engine with cache := { s.engine.cache with hits := s.engine.cache.hits + 1 } }, s.identities,
        journal⟩ := by
  obtain ⟨m, -, heq⟩ := resolve_eq_judge c hj s
  rw [heq, Check.judge_run j m s hk.keyed_eq, hp, Engine.asked_of_some hp]
  exact ⟨_, rfl⟩

end Compatibility

/-- The question is answered so, and all that this does to the engine is to count a hit. -/
def Action.Hits (m : Action Bool) (b : Bool) (w : World) : Prop :=
  let e := w.context.engine
  outcome (m w) = .ok b ∧
    (stateAfter (m w)).context.engine = { e with cache := { e.cache with hits := e.cache.hits + 1 } }

theorem Compatibility.hits_of_resolve {j : Judgment} (hj : isReflexive j = false) {w w₁ w₂ : World} {b : Bool}
    (hw : w.context.engine.subtypeGuard.Empty) (hserves : w.context.identities.Serves {j.source, j.target})
    (hr : Action.check (fun c _ => resolve c j) w = .ok b w₁) (hrun : w₁.Continues w₂) :
    Action.Hits (Action.check fun c _ => resolve c j) b w₂ := by
  have houtcome := outcome_check (fun c _ => resolve c j) w
  have hstate := stateAfter_check (fun c _ => resolve c j) w
  rw [hr] at houtcome hstate
  obtain rfl : w₁ = { w with context := stateAfter (resolve w.catalog j w.context) } := hstate
  obtain ⟨key, hkey, hpeek⟩ := resolve_keeps hj hw hserves (outcome_eq_ok.mp houtcome.symm)
  have htidy := Engine.tidy_of_empty ((resolve_follows w.catalog j w.context).subtypeGuard.empty hw)
  -- neither the identities nor the answer are lost on the way
  have honward := hrun.onward
  have hkey₂ := hkey.grows honward.follows.identities
  have hpeek₂ := Engine.peek_of_turns (honward.path htidy.synced) htidy hpeek
  obtain ⟨journal, heq⟩ := resolve_of_peek (c := w₂.catalog) hj hkey₂ hpeek₂
  unfold Action.Hits
  rw [outcome_check, stateAfter_check, heq]
  exact ⟨rfl, rfl⟩

/-- In a run that is never reset the engine gets along by turns, each of which leaves the entries of its cache alone or
adds one for a key that has none. A question between two things that has been answered is answered so ever after, from
the cache. -/
theorem answers_kept {w w' : World} (hw : w.context.engine.subtypeGuard.Empty) (hrun : w.Continues w') :
    let e := w.context.engine
    ReflTransGen Engine.Turn e w'.context.engine ∧
    (∀ e₁ e₂, ReflTransGen Engine.Turn e e₁ → Engine.Turn e₁ e₂ → e₁.cache.Appends e₂.cache) ∧
    (∀ key b, e.cache.peek key = some b → w'.context.engine.cache.peek key = some b) ∧
    (∀ source target b w₁ w₂, source ≠ target → w'.context.identities.Serves {.type source, .type target} →
      Action.isCompatible source target w' = .ok b w₁ → w₁.Continues w₂ →
        Action.Hits (Action.isCompatible source target) b w₂) ∧
    ∀ x y b w₁ w₂, x ≠ y → w'.context.identities.Serves {.signature x, .signature y} →
      Action.areSignaturesCompatible x y w' = .ok b w₁ → w₁.Continues w₂ →
        Action.Hits (Action.areSignaturesCompatible x y) b w₂ := by
  intro e
  have htidy := Engine.tidy_of_empty hw
  have honward := hrun.onward
  have hturns := honward.path htidy.synced
  have hempty := honward.follows.subtypeGuard.empty hw
  refine ⟨hturns, ?_, fun key b => Engine.peek_of_turns hturns htidy, ?_, ?_⟩
  · intro e₁ e₂ hturns₁ hturn
    exact hturn.appends (Engine.tidy_of_turns hturns₁ htidy)
  · intro source target b w₁ w₂ hne hserves hr hlater
    have hj : Compatibility.isReflexive (.type source target) = false := by simp [Compatibility.isReflexive, hne]
    exact Compatibility.hits_of_resolve hj hempty hserves hr hlater
  · intro x y b w₁ w₂ hne hserves hr hlater
    have hj : Compatibility.isReflexive (.signature x y) = false := by simp [Compatibility.isReflexive, hne]
    exact Compatibility.hits_of_resolve hj hempty hserves hr hlater

theorem Identities.serves_pair {ids : Identities} (h : ids.next.toNat + 2 < UInt32.size) (g g' : Handle) :
    ids.Serves {g, g'} := by
  have hsub : { k ∈ ({g, g'} : Set Handle) | ids.find? k = none } ⊆ {g, g'} := Set.sep_subset _ _
  have hle := (Set.ncard_le_ncard hsub (by simp)).trans (Set.ncard_insert_le g {g'})
  rw [Set.ncard_singleton] at hle
  unfold Serves
  omega

/-- The wrong direction is asked for before, and a type is added in between. -/
theorem answers_kept_endlessLists :
    let w := endlessListsAsked
    let w₁ := stateAfter (Action.isCompatible ⟨1⟩ ⟨2⟩ w)
    let w₂ := stateAfter (Action.perform (.addType .string) w₁)
    w.context.engine.cache.size = 1 ∧ outcome (Action.isCompatible ⟨1⟩ ⟨2⟩ w) = .ok true ∧
      w₂.context.engine.cache.size = 2 ∧ Action.Hits (Action.isCompatible ⟨1⟩ ⟨2⟩) true w₂ := by
  intro w w₁ w₂
  have hstart : (World.fresh {} .silent endlessLists {}).context.engine.subtypeGuard.Empty := by decide +kernel
  have hyes : outcome (Action.isCompatible ⟨1⟩ ⟨2⟩ w) = .ok true := by decide +kernel
  have hbefore : (World.fresh {} .silent endlessLists {}).Continues w :=
    .performed _ _ .start (by simp [Action.course, Action.requestCourse, Request.call?])
  have hbetween : w₁.Continues w₂ :=
    .performed _ _ .start (by simp [Action.course, Action.requestCourse, Request.call?])
  obtain ⟨-, -, -, hkept, -⟩ := answers_kept hstart hbefore
  refine ⟨by decide +kernel, hyes, by decide +kernel, ?_⟩
  exact hkept ⟨1⟩ ⟨2⟩ true w₁ w₂ (by decide) (Identities.serves_pair (by decide +kernel) _ _)
    (outcome_eq_ok.mp hyes) hbetween

end TypeContracts
