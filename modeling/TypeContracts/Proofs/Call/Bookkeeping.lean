import TypeContracts.Proofs.Call.Ending
import TypeContracts.Proofs.Call.Unread
import TypeContracts.Proofs.Compatibility.Tracing
import TypeContracts.Proofs.Conformance.Accounts

/-!
# Counters and events tell the truth

The counters of an engine account for each other in every world that can be
reached, and what is traced of a judgment accounts for how the counters go up.
Whether anything is traced makes no difference.
-/

namespace TypeContracts

open Relation (ReflTransGen)
open Log (Event Bracketed)

section
variable {options : Options} {c : Catalog} {h : Heap} {s s' : Context}

theorem Idle.poised (hi : Idle options s) : Poised options 0 s :=
  ⟨hi.options, hi.subtype_rest.1, hi.subtype_rest.2.1, hi.subtype_rest.2.2⟩

theorem Context.Move.ticks (hm : Context.Move c h s s') (hi : Idle options s) (denials : Nat) :
    ∃ denials', ReflTransGen Ledger.Tick ⟨s.engine, 0, denials⟩ ⟨s'.engine, 0, denials'⟩ := by
  cases hm with
  | judge j => exact ⟨_, (Accounted.resolve c j).ticks hi.poised 0 denials⟩
  | check v t => exact ⟨_, (Accounted.isType c h v t).ticks hi.poised 0 denials⟩
  | draw g => exact ⟨denials, .refl⟩
  | reset => exact ⟨0, .single .reset⟩
  | note journal notifies => exact ⟨denials, .single (.uncounted _ notifies)⟩

end

section
variable {options : Options} {filter : Log.Filter} {c₀ : Catalog} {h : Heap} {w : World}

theorem World.Reachable.ledger (hw : (World.fresh options filter c₀ h).Reachable w) :
    ∃ denials, ReflTransGen Ledger.Tick (.opened options) ⟨w.context.engine, 0, denials⟩ := by
  refine (hw.invariant (P := fun s => Idle options s ∧
    ∃ denials, ReflTransGen Ledger.Tick (.opened options) ⟨s.engine, 0, denials⟩) ?_ ?_).2
  · exact ⟨World.Reachable.start.idle, 0, .refl⟩
  · rintro c h s s' hm ⟨hidle, denials, hticks⟩
    obtain ⟨denials', hmore⟩ := hm.ticks hidle denials
    exact ⟨hidle.move hm, denials', hticks.trans hmore⟩

/-- What has been traced of a judgment between the context in which it was asked for and the one in which it has been
answered: it starts first and ends last, with the answer, and the brackets in between match. The queries are numbered
in turn, and none ends twice. -/
def Recorded (j : Judgment) (b : Bool) (s s' : Context) : Prop :=
  ∃ inner cacheHit,
    let query := s.journal.nextQuery
    let key := (s.identities.keyed j).1
    let events := .judgmentStart query key :: (inner ++ [.judgmentEnd query key.kind b cacheHit])
    Bracketed (query + 1) inner s'.journal.nextQuery ∧ Chronicles s s' events ∧
      events.filterMap Event.started? = List.Ico query s'.journal.nextQuery ∧
      (events.filterMap Event.ended?).Nodup

theorem World.Reachable.recorded (hw : (World.fresh options filter c₀ h).Reachable w) (ht : w.context.journal.Traces)
    {j : Judgment} (hj : Compatibility.isReflexive j = false) {b : Bool} {s : Context}
    (hr : Compatibility.resolve w.catalog j w.context = .ok b s) : Recorded j b w.context s := by
  obtain ⟨-, hsynced, hdepth⟩ := hw.idle.subtype_rest
  obtain ⟨inner, cacheHit, hinner, hall⟩ := Compatibility.resolve_chronicles hj ht hsynced hdepth hr
  exact ⟨inner, cacheHit, hinner, hall, hall.bracketed.started, hall.bracketed.ended_nodup⟩

/-- Every miss of the cache since the engine was created or reset has led to a computation, an assumption or a denial,
and a question adds a denial exactly if it fails for one. With judgments traced, the events of a judgment between two
things that is answered are well bracketed and add up to what the counters show. The journal has no effect on answers,
cache and counters. -/
theorem journal_truthful (hw : (World.fresh options filter c₀ h).Reachable w) :
    let e := w.context.engine
    (∃ denials, ReflTransGen Ledger.Tick (.opened options) ⟨e, 0, denials⟩ ∧
      e.cache.misses = e.uncachedJudgments + e.cycleAssumptions + denials ∧
      (∀ j, let result := Compatibility.resolve w.catalog j w.context
        ReflTransGen Ledger.Tick ⟨e, 0, denials⟩
          ⟨(stateAfter result).engine, 0, denials + denialsOf (outcome result)⟩) ∧
      ∀ v t, let result := Conformance.isType w.catalog w.heap v t w.context
        ReflTransGen Ledger.Tick ⟨e, 0, denials⟩
          ⟨(stateAfter result).engine, 0, denials + denialsOf (outcome result)⟩) ∧
    e.cache.size ≤ e.uncachedJudgments ∧
    (w.context.journal.Traces →
      (∀ source target b s, source ≠ target →
        Compatibility.isCompatible w.catalog source target w.context = .ok b s →
          Recorded (.type source target) b w.context s) ∧
      ∀ x y b s, x ≠ y → Compatibility.areSignaturesCompatible w.catalog x y w.context = .ok b s →
        Recorded (.signature x y) b w.context s) ∧
    ∀ journal budget requests,
      World.answers { w with context.journal := journal } budget requests = w.answers budget requests ∧
        (World.after { w with context.journal := journal } budget requests).context.engine =
          (w.after budget requests).context.engine := by
  intro e
  obtain ⟨denials, hticks⟩ := hw.ledger
  have hpoised := hw.idle.poised
  obtain ⟨hmisses, hentries⟩ := Ledger.balanced_of_ticks hticks (Ledger.balanced_opened options)
  refine ⟨⟨denials, hticks, hmisses, fun j => ?_, fun v t => ?_⟩, hentries, fun ht => ⟨?_, ?_⟩, ?_⟩
  · exact (Accounted.resolve w.catalog j).ticks hpoised 0 denials
  · exact (Accounted.isType w.catalog w.heap v t).ticks hpoised 0 denials
  · intro source target b s hne hr
    exact hw.recorded ht (by simp [Compatibility.isReflexive, hne]) hr
  · intro x y b s hne hr
    exact hw.recorded ht (by simp [Compatibility.isReflexive, hne]) hr
  · intro journal budget requests
    have htwin : w.Twin { w with context.journal := journal } := ⟨rfl, rfl, rfl, rfl⟩
    obtain ⟨hanswers, hafter⟩ := htwin.run budget requests
    exact ⟨hanswers, hafter.context.engine⟩

end

theorem Log.traces_everything {journal : Log.Journal} (h : journal.filter = .everything) : journal.Traces := by
  have hadmits : ∀ (level : Log.Level) target hasField,
      Log.Filter.everything.admits level target hasField = true := by
    intro level target hasField
    cases level <;> rfl
  refine ⟨?_, fun e _ => ?_⟩
  · unfold Log.Journal.tracesJudgments
    rw [h]
    exact hadmits _ _ _
  · rw [h]
    exact hadmits _ _ _

/-- Lists that never end, and types 3 and 4 with such a list inside. -/
def boxedLists : Catalog where
  types := endlessLists.types ++ #[
    .object none (some { properties := .ofList [("list", ⟨⟨1⟩, false⟩)] }),
    .object none (some { properties := .ofList [("list", ⟨⟨2⟩, false⟩)] })]

def shallow : Options := { subtypeProfile := .custom ⟨2, 0xFFFFFFFF⟩ }

def boxedListsAsked : World :=
  stateAfter (Action.perform (.isCompatible ⟨3⟩ ⟨4⟩) (World.fresh shallow .everything boxedLists {}))

theorem journal_truthful_boxedLists :
    let e := boxedListsAsked.context.engine
    let result := Compatibility.isCompatible boxedListsAsked.catalog ⟨1⟩ ⟨2⟩ boxedListsAsked.context
    (∃ denials, ReflTransGen Ledger.Tick (.opened shallow) ⟨e, 0, denials⟩ ∧ denials = 1) ∧
      outcome result = .ok true ∧ Recorded (.type ⟨1⟩ ⟨2⟩) true boxedListsAsked.context (stateAfter result) ∧
      (stateAfter result).engine.cycleAssumptions = e.cycleAssumptions + 1 := by
  have hw : (World.fresh shallow .everything boxedLists {}).Reachable boxedListsAsked := .performed _ _ .start
  have hjournal : boxedListsAsked.context.journal.Traces := Log.traces_everything (by decide +kernel)
  have hcounters : boxedListsAsked.context.engine.cache.misses = boxedListsAsked.context.engine.uncachedJudgments +
      boxedListsAsked.context.engine.cycleAssumptions + 1 := by decide +kernel
  have hanswer : outcome (Compatibility.isCompatible boxedListsAsked.catalog ⟨1⟩ ⟨2⟩ boxedListsAsked.context) =
      .ok true := by decide +kernel
  obtain ⟨⟨denials, hledger, hmisses, -⟩, -, htraced, -⟩ := journal_truthful hw
  refine ⟨⟨denials, hledger, by omega⟩, hanswer, ?_, by decide +kernel⟩
  exact (htraced hjournal).1 _ _ _ _ (by decide) (outcome_eq_ok.mp hanswer)

end TypeContracts
