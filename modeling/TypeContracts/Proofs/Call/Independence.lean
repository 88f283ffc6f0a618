import TypeContracts.Proofs.Call.Exactness
import TypeContracts.Proofs.Conformance.Likeness

/-!
# Engines do not interfere

Engines share descriptors, values, identities and the journal. What one of them
draws from the counter changes the keys of all others, but what an engine
reports does not depend on these (`engines_independent`): not in a run in which
another engine is asked in between, and not after identities have been drawn
beforehand.
-/

namespace TypeContracts

/-! ## Questions and reports -/

inductive Question where
  | isCompatible (source target : TypeRef)
  | areSignaturesCompatible (source target : SignatureRef)
  | isType (value : Value) (type : TypeRef)
  | assertType (value : Value) (type : TypeRef) (location : Location)

namespace Question

def request : Question → Request
  | isCompatible source target => .isCompatible source target
  | areSignaturesCompatible source target => .areSignaturesCompatible source target
  | isType value type => .isType value type
  | assertType value type location => .assertType value type location

def check (c : Catalog) (h : Heap) : Question → Check Answer
  | isCompatible source target => return .verdict (← Compatibility.isCompatible c source target)
  | areSignaturesCompatible source target => return .verdict (← Compatibility.areSignaturesCompatible c source target)
  | isType v t => return .verdict (← Conformance.isType c h v t)
  | assertType v t location => return .value (← TypeContracts.assertType c h v t location)

theorem perform_eq (q : Question) : Action.perform q.request = Action.check fun c h => q.check c h := by
  have hcheck : ∀ {α : Type} (f : Catalog → Heap → Check α) (k : α → Answer),
      (Action.check f >>= fun a => pure (k a)) = Action.check fun c h => f c h >>= fun a => pure (k a) := by
    intro α f k
    funext w
    simp only [Action.check, Bind.bind, EStateM.bind]
    cases f w.catalog w.heap w.context <;> rfl
  cases q <;> exact hcheck _ _

end Question

/-- What an engine reports about a question: how it ends, the violations that are notified, what is written to the
journal without numbers of identities, and the counters afterwards. -/
structure Report where
  outcome : Except Failure Answer
  notices : List (String × Location)
  events : List Log.Event
  hits : Nat
  misses : Nat
  entries : Nat
  uncached : Nat

namespace World

def ask (w : World) (q : Question) : World := stateAfter (Action.perform q.request w)

def report (w : World) (q : Question) : Report :=
  let before := w.context.journal
  let after := (w.ask q).context
  { outcome := outcome (Action.perform q.request w)
    notices := after.journal.notices.toList.drop before.notices.size
    events := (after.journal.events.toList.drop before.events.size).map (Log.Event.anonymous before.nextQuery)
    hits := after.engine.cache.hits
    misses := after.engine.cache.misses
    entries := after.engine.cache.size
    uncached := after.engine.uncachedJudgments }

def reports (w : World) : List Question → List Report
  | [] => []
  | q :: questions => w.report q :: (w.ask q).reports questions

def withEngine (w : World) (engine : Engine) : World := { w with context := { w.context with engine } }

def drawn (w : World) (handles : List Handle) : World :=
  { w with context.identities := handles.foldl (fun ids g => (ids.assign g).2) w.context.identities }

end World

structure Neighbours where
  world : World
  other : Engine

namespace Neighbours

/-- Questions on the left go to the engine of the world, those on the right to the other one. -/
def ask (n : Neighbours) : Question ⊕ Question → Neighbours
  | .inl q => { n with world := n.world.ask q }
  | .inr q =>
    let after := (n.world.withEngine n.other).ask q
    ⟨after.withEngine n.world.context.engine, after.context.engine⟩

def reports (n : Neighbours) : List (Question ⊕ Question) → List Report
  | [] => []
  | .inl q :: calls => n.world.report q :: (n.ask (.inl q)).reports calls
  | .inr q :: calls => (n.ask (.inr q)).reports calls

end Neighbours

/-! ## Questions do not depend on identities -/

theorem Insensitive.violate {α : Type} (message : String) (location : Location) :
    Insensitive (Check.violate message location : Check α) := by
  have hrun : ∀ s, (Check.violate message location : Check α) s = .error (.violation ⟨message, location⟩)
      (if s.engine.notifies then
        { s with journal := (s.journal.record (.violation location)).notify message location }
      else { s with journal := s.journal.record (.violation location) }) := fun _ => rfl
  refine ⟨⟨fun s => ?_, fun {s} hs _ => ?_⟩, fun s => ?_, fun {base base' s s'} h _ => ?_⟩
  · rw [hrun]
    dsimp only [stateAfter]
    split <;> exact ⟨rfl, .refl _, .refl _, .refl _, Nat.le_refl _⟩
  · rw [hrun]
    dsimp only [stateAfter]
    split <;> exact hs
  · rw [hrun]
    dsimp only [stateAfter]
    split <;> simp [Log.Journal.notify]
  · rw [hrun, hrun, h.engine.notifies]
    refine ⟨rfl, ?_⟩
    have hrecorded : Log.Journal.Alike base base' (s.journal.record (.violation location))
        (s'.journal.record (.violation location)) := h.journal.record rfl
    dsimp only [stateAfter]
    split
    · exact ⟨h.identities, h.engine, hrecorded.notify message location⟩
    · exact ⟨h.identities, h.engine, hrecorded⟩

theorem Insensitive.question (c : Catalog) (h : Heap) (q : Question) : Insensitive (q.check c h) := by
  cases q with
  | isCompatible source target => exact (resolve c _).bind fun _ => pure _
  | areSignaturesCompatible source target => exact (resolve c _).bind fun _ => pure _
  | isType v t => exact (isType c h v t).bind fun _ => pure _
  | assertType v t location =>
    refine bind ((isType c h v t).bind fun b => ?_) fun _ => pure _
    cases b with
    | true => exact pure v
    | false => exact violate _ _

/-! ## Worlds that are alike -/

namespace Context.Alike

variable {base base' : Log.Journal} {s s' : Context}

/-- What was written before does not matter for what is written next. -/
theorem rebase (h : Alike base base' s s') : Alike s.journal s'.journal s s' :=
  ⟨h.identities, h.engine, .start h.journal.filter⟩

/-- Identities drawn by others do not matter. -/
theorem grow (h : Alike base base' s s') {ids : Identities} (hg : s.identities.Grows ids) (hs : ids.Sound) :
    Alike base base' { s with identities := ids } s' := by
  have hnamed : s'.identities.named ⊆ ids.named := by
    intro g hfound
    obtain ⟨i, hi⟩ := Option.isSome_iff_exists.mp (h.identities.named hfound)
    simp [Identities.named, hg.keeps hi]
  have hids : ids.Shadows s'.identities := ⟨hs, h.identities.sound', hnamed⟩
  exact ⟨hids, Engine.Alike.grows (h := h.identities) h.engine hg (.refl _) hids, h.journal⟩

end Context.Alike

structure World.Alike (w w' : World) : Prop where
  catalog : w'.catalog = w.catalog
  heap : w'.heap = w.heap
  context : Context.Alike w.context.journal w'.context.journal w.context w'.context

namespace World

variable {w w' : World}

theorem ask_eq (w : World) (q : Question) :
    w.ask q = { w with context := stateAfter (q.check w.catalog w.heap w.context) } := by
  rw [ask, q.perform_eq, stateAfter_check]

theorem grows_ask (w : World) (q : Question) : w.context.identities.Grows (w.ask q).context.identities := by
  rw [ask_eq]
  exact ((Insensitive.question w.catalog w.heap q).follows w.context).identities

theorem Alike.ask (h : w.Alike w') (q : Question) (hroom : (w.ask q).context.identities.HasRoom) :
    w'.report q = w.report q ∧ (w.ask q).Alike (w'.ask q) := by
  rw [ask_eq] at hroom
  obtain ⟨hsame, hafter⟩ := (Insensitive.question w.catalog w.heap q).alike h.context hroom
  obtain ⟨es, es', hes, hes', hevents⟩ := hafter.journal.events
  obtain ⟨ns, hns, hns'⟩ := hafter.journal.notices
  have hcache := hafter.engine.cache
  constructor
  · simp only [report, ask_eq, q.perform_eq, outcome_check, h.catalog, h.heap, hsame, hes, hes', hns, hns', hcache.hits,
      hcache.misses, hcache.size, hafter.engine.uncachedJudgments, ← Array.length_toList, List.drop_left, hevents]
  · rw [ask_eq, ask_eq]
    refine ⟨h.catalog, h.heap, ?_⟩
    rw [h.catalog, h.heap]
    exact hafter.rebase

theorem grows_foldl_ask (w : World) (questions : List Question) :
    w.context.identities.Grows (questions.foldl ask w).context.identities := by
  induction questions generalizing w with
  | nil => exact .refl _
  | cons q questions ih => exact (w.grows_ask q).trans (ih _)

theorem Alike.reports (h : w.Alike w') (questions : List Question)
    (hroom : (questions.foldl World.ask w).context.identities.HasRoom) :
    w'.reports questions = w.reports questions := by
  induction questions generalizing w w' with
  | nil => rfl
  | cons q questions ih =>
    obtain ⟨hreport, hafter⟩ := h.ask q ((grows_foldl_ask _ questions).hasRoom hroom)
    rw [World.reports, World.reports, hreport, ih hafter hroom]

theorem grows_drawn (w : World) (handles : List Handle) :
    w.context.identities.Grows (w.drawn handles).context.identities := by
  induction handles generalizing w with
  | nil => exact .refl _
  | cons g handles ih => exact (Identities.grows_assign _ g).trans (ih (w.drawn [g]))

theorem Alike.drawn (h : w.Alike w') (handles : List Handle)
    (hroom : (w.drawn handles).context.identities.HasRoom) : (w.drawn handles).Alike w' := by
  induction handles generalizing w with
  | nil => exact h
  | cons g handles ih =>
    have hfirst : (w.context.identities.assign g).2.HasRoom := ((w.drawn [g]).grows_drawn handles).hasRoom hroom
    have hgrown := h.context.grow (w.context.identities.grows_assign g) (h.context.identities.sound.assign hfirst)
    exact ih (w := w.drawn [g]) ⟨h.catalog, h.heap, hgrown⟩ hroom

/-- A question to another engine changes identities and the journal only. -/
theorem Alike.passed (h : w.Alike w') (other : Engine) (q : Question)
    (hroom : ((w.withEngine other).ask q).context.identities.HasRoom) :
    (((w.withEngine other).ask q).withEngine w.context.engine).Alike w' := by
  have hquestion := Insensitive.question w.catalog w.heap q
  have hg := (w.withEngine other).grows_ask q
  have hs := hquestion.keeps (s := (w.withEngine other).context) h.context.identities.sound
  have hfilter := hquestion.filter (w.withEngine other).context
  rw [ask_eq] at hroom hg ⊢
  have hgrown := h.context.grow hg (hs hroom)
  exact ⟨h.catalog, h.heap, hgrown.identities, hgrown.engine, .start (h.context.journal.filter.trans hfilter.symm)⟩

/-- What an engine has named it has named once, so a world that can be reached is like itself. -/
theorem Reachable.alike {options : Options} {filter : Log.Filter} {c : Catalog} {h : Heap} {w : World}
    (hw : (World.fresh options filter c h).Reachable w) (hroom : w.context.identities.HasRoom) : w.Alike w := by
  refine ⟨rfl, rfl, hw.invariant (P := fun s => s.identities.HasRoom → Context.Alike s.journal s.journal s s) ?_ ?_ hroom⟩
  · intro _
    have hids : ({} : Identities).Shadows {} := ⟨Identities.sound_empty, Identities.sound_empty, subset_rfl⟩
    refine ⟨hids, ⟨rfl, rfl, rfl, rfl, Cache.alike_empty _ _, ?_, ?_⟩, .start rfl⟩
    · exact Guard.alike_reset (g := .ofProfile options.subtypeProfile) _ _ rfl
    · exact Guard.alike_reset (g := .ofProfile options.valueProfile) _ _ rfl
  · intro c h s s' hm hall hroom
    have hbefore := hall (hm.grows.hasRoom hroom)
    cases hm with
    | judge j => exact ((Insensitive.resolve _ j).alike hbefore hroom).2.rebase
    | check v t => exact ((Insensitive.isType _ _ v t).alike hbefore hroom).2.rebase
    | draw g =>
      have hids := (hbefore.identities.assign hroom).1
      have he := Engine.Alike.grows (h := hbefore.identities) hbefore.engine (Identities.grows_assign _ g)
        (Identities.grows_assign _ g) hids
      exact ⟨hids, he, hbefore.journal⟩
    | reset => exact ⟨hbefore.identities, hbefore.engine.reset, hbefore.journal⟩
    | note journal notifies =>
      exact ⟨hbefore.identities, { hbefore.engine with notifies := rfl }, .start rfl⟩

end World

/-! ## Runs of two engines -/

namespace Neighbours

theorem grows_ask (n : Neighbours) (call : Question ⊕ Question) :
    n.world.context.identities.Grows (n.ask call).world.context.identities := by
  cases call with
  | inl q => exact n.world.grows_ask q
  | inr q => exact (n.world.withEngine n.other).grows_ask q

theorem grows_foldl_ask (n : Neighbours) (calls : List (Question ⊕ Question)) :
    n.world.context.identities.Grows (calls.foldl ask n).world.context.identities := by
  induction calls generalizing n with
  | nil => exact .refl _
  | cons call calls ih => exact (n.grows_ask call).trans (ih _)

theorem reports_eq {n : Neighbours} {w : World} (h : n.world.Alike w) (calls : List (Question ⊕ Question))
    (hroom : (calls.foldl ask n).world.context.identities.HasRoom) :
    n.reports calls = w.reports (calls.filterMap Sum.getLeft?) := by
  induction calls generalizing n w with
  | nil => rfl
  | cons call calls ih =>
    have hfirst := (grows_foldl_ask _ calls).hasRoom hroom
    cases call with
    | inl q =>
      obtain ⟨hreport, hafter⟩ := h.ask q hfirst
      simp only [List.filterMap_cons, Sum.getLeft?_inl, Neighbours.reports, World.reports, hreport]
      exact congrArg (n.world.report q :: ·) (ih hafter hroom)
    | inr q =>
      simp only [List.filterMap_cons, Sum.getLeft?_inr, Neighbours.reports]
      exact ih (h.passed n.other q hfirst) hroom

end Neighbours

section
variable {options : Options} {filter : Log.Filter} {c : Catalog} {h : Heap} {w : World}

/-- What an engine reports is what it reports without the questions to another engine, in whatever state that one
is; and it is the same whichever identities have been drawn beforehand. -/
theorem engines_independent (hw : (World.fresh options filter c h).Reachable w) :
    (∀ other calls, (calls.foldl Neighbours.ask ⟨w, other⟩).world.context.identities.HasRoom →
      Neighbours.reports ⟨w, other⟩ calls = w.reports (calls.filterMap Sum.getLeft?)) ∧
    ∀ drawn drawn' questions,
      (questions.foldl World.ask (w.drawn drawn)).context.identities.HasRoom →
      (questions.foldl World.ask (w.drawn drawn')).context.identities.HasRoom →
      (w.drawn drawn).reports questions = (w.drawn drawn').reports questions := by
  constructor
  · intro other calls hroom
    have hbefore := (Neighbours.grows_foldl_ask ⟨w, other⟩ calls).hasRoom hroom
    exact Neighbours.reports_eq (hw.alike hbefore) calls hroom
  · -- both report what is reported when nothing has been drawn
    have hnone : ∀ drawn questions, (questions.foldl World.ask (w.drawn drawn)).context.identities.HasRoom →
        w.reports questions = (w.drawn drawn).reports questions := by
      intro drawn questions hroom
      have hdrawn := (World.grows_foldl_ask (w.drawn drawn) questions).hasRoom hroom
      have hbefore : w.context.identities.HasRoom := (w.grows_drawn drawn).hasRoom hdrawn
      exact ((hw.alike hbefore).drawn drawn hdrawn).reports questions hroom
    intro drawn drawn' questions hroom hroom'
    rw [← hnone drawn questions hroom, hnone drawn' questions hroom']

end

def endlessListsHeard : World :=
  let w := World.fresh {} .everything endlessLists ownSuccessor
  { w with context := { w.context with engine := { w.context.engine with notifies := true } } }

def endlessListsCalls : List (Question ⊕ Question) := [
  .inr (.isCompatible ⟨2⟩ ⟨1⟩),
  .inl (.isCompatible ⟨1⟩ ⟨2⟩),
  .inr (.isType (.object ⟨1⟩) ⟨1⟩),
  .inl (.assertType (.object ⟨1⟩) ⟨1⟩ .unknown),
  .inl (.isCompatible ⟨1⟩ ⟨2⟩)]

/-- The other engine is asked first, so that the numbers differ. -/
theorem engines_independent_endlessLists :
    Neighbours.reports ⟨endlessListsHeard, .create {}⟩ endlessListsCalls =
        endlessListsHeard.reports (endlessListsCalls.filterMap Sum.getLeft?) ∧
      (endlessListsHeard.drawn [.type ⟨2⟩]).reports [.isCompatible ⟨1⟩ ⟨2⟩] =
        (endlessListsHeard.drawn [.type ⟨0⟩]).reports [.isCompatible ⟨1⟩ ⟨2⟩] ∧
      (endlessListsCalls.foldl Neighbours.ask ⟨endlessListsHeard, .create {}⟩).world.context.identities.find?
        (.type ⟨1⟩) = some ⟨1⟩ ∧
      ((endlessListsCalls.filterMap Sum.getLeft?).foldl World.ask endlessListsHeard).context.identities.find?
        (.type ⟨1⟩) = some ⟨0⟩ := by
  have hw : (World.fresh {} .everything endlessLists ownSuccessor).Reachable endlessListsHeard :=
    .moved .start (.inside (.note _ _ true))
  obtain ⟨hcalls, hdrawn⟩ := engines_independent hw
  refine ⟨hcalls _ _ (by decide +kernel), ?_, by decide +kernel, by decide +kernel⟩
  exact hdrawn _ _ _ (by decide +kernel) (by decide +kernel)

end TypeContracts
