import TypeContracts.Proofs.Compatibility.Unrolling
import TypeContracts.Proofs.Engine.Brackets
import TypeContracts.Proofs.Engine.Ledger

/-!
# What is traced of judgments

With judgments traced, a check that gives an answer writes judgment events that
are well bracketed, and of each sort as many as the counters of the engine have
gone up by (`Chronicles`). What a judgment writes begins with its start and
ends with its answer, unless it is assumed (`judge_chronicles`).
-/

namespace TypeContracts

namespace Log.Journal

variable {journal journal₁ journal₂ : Journal} {e : Event} {events events' : List Event}

/-- Judgment events are made, and all of them pass. -/
structure Traces (journal : Journal) : Prop where
  expected : journal.tracesJudgments = true
  admitted : ∀ e : Event, e.isJudgment = true → journal.filter.admits e.level e.target e.hasField = true

structure Adds (journal journal' : Journal) (events : List Event) : Prop where
  filter : journal'.filter = journal.filter
  written : ∃ new, journal'.events.toList = journal.events.toList ++ new ∧ new.filter (·.isJudgment) = events

theorem Adds.refl (journal : Journal) : journal.Adds journal [] := ⟨rfl, [], by simp⟩

theorem Adds.trans (h : journal.Adds journal₁ events) (h' : journal₁.Adds journal₂ events') :
    journal.Adds journal₂ (events ++ events') := by
  obtain ⟨new, hnew, rfl⟩ := h.written
  obtain ⟨new', hnew', rfl⟩ := h'.written
  exact ⟨h'.filter.trans h.filter, new ++ new', by rw [hnew', hnew, List.append_assoc], by simp⟩

theorem Adds.traces (h : journal.Adds journal₁ events) (ht : journal.Traces) : journal₁.Traces := by
  refine ⟨?_, fun e he => ?_⟩
  · unfold tracesJudgments
    rw [h.filter]
    exact ht.expected
  · rw [h.filter]
    exact ht.admitted e he

theorem nextQuery_record (journal : Journal) (e : Event) : (journal.record e).nextQuery = journal.nextQuery := by
  unfold record
  split <;> rfl

theorem Traces.adds_record (ht : journal.Traces) (he : e.isJudgment = true) : journal.Adds (journal.record e) [e] := by
  unfold record
  rw [if_pos (ht.admitted e he)]
  exact ⟨rfl, [e], by simp, by simp [he]⟩

theorem adds_record_other (journal : Journal) (he : e.isJudgment = false) : journal.Adds (journal.record e) [] := by
  unfold record
  split
  · exact ⟨rfl, [e], by simp, by simp [he]⟩
  · exact .refl journal

section
variable (ht : journal.Traces) (key : JudgmentKey)
include ht

theorem Traces.query : journal.query? = some journal.nextQuery := by
  unfold query?
  rw [if_pos ht.expected]

theorem Traces.asked : journal.Adds (journal.asked key) [.judgmentStart journal.nextQuery key] ∧
    (journal.asked key).nextQuery = journal.nextQuery + 1 := by
  unfold Journal.asked
  rw [if_pos ht.expected, nextQuery_record]
  have hcounted : Traces { journal with nextQuery := journal.nextQuery + 1 } := ⟨ht.expected, ht.admitted⟩
  obtain ⟨hfilter, hwritten⟩ := hcounted.adds_record (e := .judgmentStart journal.nextQuery key) rfl
  exact ⟨⟨hfilter, hwritten⟩, rfl⟩

theorem Traces.answered (query : Nat) (kind : JudgmentKind) (result cacheHit : Bool) :
    journal.Adds (journal.answered (some query) kind result cacheHit) [.judgmentEnd query kind result cacheHit] ∧
      (journal.answered (some query) kind result cacheHit).nextQuery = journal.nextQuery :=
  ⟨ht.adds_record rfl, nextQuery_record _ _⟩

theorem Traces.assumed (query : Nat) : journal.Adds (journal.assumed (some query) key) [.cycleAssumed key] ∧
    (journal.assumed (some query) key).nextQuery = journal.nextQuery :=
  ⟨ht.adds_record rfl, nextQuery_record _ _⟩

end

/-- That an answer is not kept is reported, but not as a judgment event. -/
theorem adds_kept (journal : Journal) (e : Engine) (key : JudgmentKey) (before : Nat) (result : Bool) :
    journal.Adds (journal.kept e key before result) [] ∧
      (journal.kept e key before result).nextQuery = journal.nextQuery := by
  unfold kept
  split
  · exact ⟨.refl journal, rfl⟩
  · exact ⟨adds_record_other journal rfl, nextQuery_record _ _⟩

end Log.Journal

open Log (Event Bracketed)

structure Engine.Tallies (e e' : Engine) (events : List Event) : Prop where
  hits : e'.cache.hits = e.cache.hits + events.countP (·.isEnd true)
  uncached : e'.uncachedJudgments = e.uncachedJudgments + events.countP (·.isEnd false)
  cycles : e'.cycleAssumptions = e.cycleAssumptions + events.countP (·.isCycle)

structure Chronicles (s s' : Context) (events : List Event) : Prop where
  journal : s.journal.Adds s'.journal events
  bracketed : Bracketed s.journal.nextQuery events s'.journal.nextQuery
  tallies : s.engine.Tallies s'.engine events

theorem Chronicles.refl (s : Context) : Chronicles s s [] := ⟨.refl _, .nil, rfl, rfl, rfl⟩

theorem Chronicles.trans {s s₁ s₂ : Context} {events events' : List Event} (h : Chronicles s s₁ events)
    (h' : Chronicles s₁ s₂ events') : Chronicles s s₂ (events ++ events') := by
  refine ⟨h.journal.trans h'.journal, h.bracketed.append h'.bracketed, ?_, ?_, ?_⟩
  · rw [h'.tallies.hits, h.tallies.hits, List.countP_append, Nat.add_assoc]
  · rw [h'.tallies.uncached, h.tallies.uncached, List.countP_append, Nat.add_assoc]
  · rw [h'.tallies.cycles, h.tallies.cycles, List.countP_append, Nat.add_assoc]

def Traced {α : Type} (m : Check α) : Prop :=
  ∀ s a s', s.journal.Traces → m s = .ok a s' → ∃ events, Chronicles s s' events

theorem Traced.pure {α : Type} (a : α) : Traced (Pure.pure a : Check α) := by
  intro s b s' _ h
  cases h
  exact ⟨[], .refl s⟩

theorem Traced.throw {α : Type} (e : Failure) : Traced (MonadExcept.throw e : Check α) := by
  intro s b s' _ h
  cases h

theorem Traced.bind {α β : Type} {m : Check α} {f : α → Check β} (hm : Traced m) (hf : ∀ a, Traced (f a)) :
    Traced (m >>= f) := by
  intro s b s' ht h
  obtain ⟨a, s₁, hfirst, hrest⟩ := bind_ok.mp h
  obtain ⟨events, hevents⟩ := hm s a s₁ ht hfirst
  obtain ⟨events', hevents'⟩ := hf a s₁ b s' (hevents.journal.traces ht) hrest
  exact ⟨events ++ events', hevents.trans hevents'⟩

theorem Traced.compositional : Compositional Set.univ fun m : Check Bool => Traced m :=
  ⟨.pure, fun _ => .throw _, .bind⟩

/-! ## Judgments -/

namespace Engine.Tallies

variable {e e' : Engine} {key : JudgmentKey} {events : List Event} (query : Nat) (kind : JudgmentKind) (b : Bool)

theorem found (h : e.cache.peek key = some b) :
    e.Tallies (e.asked key) [.judgmentStart query key, .judgmentEnd query kind b true] := by
  rw [asked_of_some h]
  exact ⟨rfl, rfl, rfl⟩

theorem assumed (h : e.cache.peek key = none) :
    e.Tallies { e.tried key with cycleAssumptions := e.cycleAssumptions + 1 }
      [.judgmentStart query key, .cycleAssumed key] := by
  rw [tried, asked_of_none h]
  exact ⟨rfl, rfl, rfl⟩

theorem computed (h : e.cache.peek key = none) (hinner : (e.begun key).Tallies e' events) (before : Nat) :
    e.Tallies ((e'.left key).kept key before b)
      (.judgmentStart query key :: (events ++ [.judgmentEnd query kind b false])) := by
  have hhits : e'.cache.hits = e.cache.hits + events.countP (·.isEnd true) := by
    rw [hinner.hits, begun, tried, asked_of_none h]
  have huncached : e'.uncachedJudgments = e.uncachedJudgments + 1 + events.countP (·.isEnd false) := hinner.uncached
  have hcount : ∀ p : Event → Bool, p (.judgmentStart query key) = false →
      (.judgmentStart query key :: (events ++ [.judgmentEnd query kind b false])).countP p =
        events.countP p + if p (.judgmentEnd query kind b false) then 1 else 0 := by
    intro p hp
    simp [List.countP_cons, hp]
  have hleft : e.Tallies (e'.left key) (.judgmentStart query key :: (events ++ [.judgmentEnd query kind b false])) := by
    refine ⟨?_, ?_, ?_⟩
    · rw [hcount _ rfl]
      exact hhits
    · rw [hcount _ rfl]
      exact huncached.trans (by rw [Nat.add_assoc, Nat.add_comm 1]; rfl)
    · rw [hcount _ rfl]
      exact hinner.cycles
  obtain hkept | hkept := (e'.left key).kept_cases key before b
  · rw [hkept]
    exact hleft
  · rw [hkept]
    exact ⟨hleft.hits, hleft.uncached, hleft.cycles⟩

end Engine.Tallies

/-- A judgment that gives an answer is assumed, or its events begin with its start and end with the answer. -/
theorem judge_chronicles {m : Check Bool} (hm : Traced m) {j : Judgment} {s s' : Context} {b : Bool} {key : JudgmentKey}
    {ids : Identities} (ht : s.journal.Traces) (hk : s.identities.keyed j = (key, ids))
    (h : Check.judge j m s = .ok b s') :
    (Chronicles s s' [.judgmentStart s.journal.nextQuery key, .cycleAssumed key] ∧
      (s.engine.subtypeGuard.renewed.enter key).1 = .cycle) ∨
    ∃ inner cacheHit, Bracketed (s.journal.nextQuery + 1) inner s'.journal.nextQuery ∧
      Chronicles s s' (.judgmentStart s.journal.nextQuery key ::
        (inner ++ [.judgmentEnd s.journal.nextQuery key.kind b cacheHit])) := by
  obtain ⟨hasked, hnext⟩ := ht.asked key
  have htasked := hasked.traces ht
  rw [Check.judge_run j m s hk, ht.query] at h
  cases hp : s.engine.cache.peek key with
  | some answer =>
    rw [hp] at h
    cases h
    obtain ⟨hanswered, hsame⟩ := htasked.answered s.journal.nextQuery key.kind b true
    have hend := hsame.trans hnext
    refine .inr ⟨[], true, ?_, hasked.trans hanswered, ?_, .found _ _ b hp⟩
    · rw [hend]
      exact .nil
    · rw [hend]
      exact .found .nil
  | none =>
    rw [hp] at h
    cases ha : (s.engine.subtypeGuard.renewed.enter key).1 with
    | depthExceeded | iterationExceeded =>
      rw [ha] at h
      cases h
    | cycle =>
      rw [ha] at h
      cases h
      obtain ⟨hassumed, hsame⟩ := htasked.assumed key s.journal.nextQuery
      refine .inl ⟨⟨hasked.trans hassumed, ?_, .assumed _ hp⟩, rfl⟩
      rw [hsame, hnext]
      exact .assumed .nil
    | entered =>
      rw [ha] at h
      dsimp only at h
      cases hr : m ⟨s.engine.begun key, ids, s.journal.asked key⟩ with
      | error e s₁ =>
        rw [hr] at h
        cases h
      | ok result s₁ =>
        rw [hr] at h
        cases h
        obtain ⟨inner, hinner⟩ := hm _ _ _ htasked hr
        have hbracketed := hinner.bracketed
        dsimp only at hbracketed
        rw [hnext] at hbracketed
        obtain ⟨hkept, hkeptNext⟩ := s₁.journal.adds_kept (s₁.engine.left key) key s.engine.cycleAssumptions b
        have htkept := hkept.traces (hinner.journal.traces htasked)
        obtain ⟨hanswered, hsame⟩ := htkept.answered s.journal.nextQuery key.kind b false
        have hend := hsame.trans hkeptNext
        refine .inr ⟨inner, false, ?_, hasked.trans (hinner.journal.trans (hkept.trans hanswered)), ?_,
          .computed _ _ b hp hinner.tallies _⟩
        · rw [hend]
          exact hbracketed
        · rw [hend]
          exact .computed hbracketed .nil

theorem Traced.judge {m : Check Bool} (hm : Traced m) (j : Judgment) : Traced (Check.judge j m) := by
  intro s b s' ht h
  obtain ⟨hassumed, -⟩ | ⟨inner, cacheHit, -, hanswered⟩ := judge_chronicles hm ht rfl h
  · exact ⟨_, hassumed⟩
  · exact ⟨_, hanswered⟩

namespace Compatibility

theorem traced_resolveWithin (c : Catalog) (strict : Bool) (n : Nat) (j : Judgment) :
    Traced (resolveWithin c strict n j) := by
  refine resolveWithin_of_judge (P := fun _ m => Traced m) (askClosed_univ c) (fun _ => .pure true) ?_
    (fun j _ _ => (Traced.throw _).judge j) n (Set.mem_univ j)
  intro j ask _ _ ha
  exact (rule_of_asked Traced.compositional strict ha (Set.subset_univ _)).judge j

/-- A judgment between two things, asked for when nothing is in progress, is traced from its start to its answer. -/
theorem resolve_chronicles {c : Catalog} {j : Judgment} (hj : isReflexive j = false) {s s' : Context} {b : Bool}
    (ht : s.journal.Traces) (hsynced : s.engine.subtypeGuard.Synced) (hidle : s.engine.subtypeGuard.depth = 0)
    (h : resolve c j s = .ok b s') :
    ∃ inner cacheHit, Bracketed (s.journal.nextQuery + 1) inner s'.journal.nextQuery ∧
      Chronicles s s' (.judgmentStart s.journal.nextQuery (s.identities.keyed j).1 ::
        (inner ++ [.judgmentEnd s.journal.nextQuery (s.identities.keyed j).1.kind b cacheHit])) := by
  obtain ⟨m, hm, heq⟩ := resolveWithin_eq_judge c s.engine.options.strictNullableSources
    s.engine.options.subtypeProfile.limits.maxDepth.toNat hj Traced.compositional
    (fun n k => traced_resolveWithin c _ n k)
  have hjudge : Check.judge j m s = .ok b s' := by
    rw [← heq]
    exact h
  refine (judge_chronicles hm ht rfl hjudge).resolve_left fun ⟨_, hcycle⟩ => ?_
  have hvisiting := Guard.isVisiting_of_cycle hcycle
  rw [s.engine.subtypeGuard.restored_renewed.visiting hsynced, Guard.isVisiting_of_depth hsynced hidle] at hvisiting
  cases hvisiting

end Compatibility

end TypeContracts
