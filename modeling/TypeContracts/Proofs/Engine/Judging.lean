import TypeContracts.Engine.Judge
import TypeContracts.Proofs.Engine.Guards
import TypeContracts.Proofs.Engine.Identities
import TypeContracts.Proofs.Inquiry

/-!
# What deciding a judgment does

A judgment is found in the cache, assumed, denied by the guard, or computed;
`judge_run` says what each of these makes of the context, and `judge_judged`
says it by cases, the journal apart. Nothing else unfolds `judge`.
-/

namespace TypeContracts

namespace Engine

def asked (e : Engine) (key : JudgmentKey) : Engine := { e with cache := (e.cache.lookup key).2 }

def tried (e : Engine) (key : JudgmentKey) : Engine :=
  { e.asked key with subtypeGuard := (e.subtypeGuard.renewed.enter key).2 }

def begun (e : Engine) (key : JudgmentKey) : Engine :=
  { e.tried key with uncachedJudgments := e.uncachedJudgments + 1 }

def left (e : Engine) (key : JudgmentKey) : Engine := { e with subtypeGuard := e.subtypeGuard.leave key }

/-- An answer has been kept, unless it is provisional. -/
def kept (e : Engine) (key : JudgmentKey) (before : Nat) (result : Bool) : Engine :=
  if !result || !e.subtypeGuard.isActive || e.cycleAssumptions == before then
    { e with cache := e.cache.insert key result }
  else e

section
variable (e : Engine) (key : JudgmentKey) (before : Nat) (b : Bool)

@[simp]
theorem kept_options : (e.kept key before b).options = e.options := by unfold kept; split <;> rfl

@[simp]
theorem kept_subtypeGuard : (e.kept key before b).subtypeGuard = e.subtypeGuard := by unfold kept; split <;> rfl

@[simp]
theorem kept_valueGuard : (e.kept key before b).valueGuard = e.valueGuard := by unfold kept; split <;> rfl

@[simp]
theorem kept_uncachedJudgments : (e.kept key before b).uncachedJudgments = e.uncachedJudgments := by
  unfold kept; split <;> rfl

@[simp]
theorem kept_cycleAssumptions : (e.kept key before b).cycleAssumptions = e.cycleAssumptions := by
  unfold kept; split <;> rfl

end

end Engine

/-! ## What is written to the journal -/

namespace Log.Journal

def query? (journal : Journal) : Option Nat := if journal.tracesJudgments then some journal.nextQuery else none

def asked (journal : Journal) (key : JudgmentKey) : Journal :=
  if journal.tracesJudgments then
    { journal with nextQuery := journal.nextQuery + 1 }.record (.judgmentStart journal.nextQuery key)
  else journal

def answered (journal : Journal) (query : Option Nat) (kind : JudgmentKind) (result cacheHit : Bool) : Journal :=
  match query with
  | some query => journal.record (.judgmentEnd query kind result cacheHit)
  | none => journal

def assumed (journal : Journal) (query : Option Nat) (key : JudgmentKey) : Journal :=
  if query.isSome then journal.record (.cycleAssumed key) else journal

/-- The engine, which has left the judgment, keeps the answer or says that it does not. -/
def kept (journal : Journal) (e : Engine) (key : JudgmentKey) (before : Nat) (result : Bool) : Journal :=
  if !result || !e.subtypeGuard.isActive || e.cycleAssumptions == before then journal
  else journal.record (.notCached key)

section
variable (journal : Journal) (key : JudgmentKey) (query : Option Nat)

@[simp]
theorem filter_record (e : Event) : (journal.record e).filter = journal.filter := by
  unfold record
  split <;> rfl

@[simp]
theorem filter_asked : (journal.asked key).filter = journal.filter := by
  unfold asked
  split <;> simp

@[simp]
theorem filter_answered (kind : JudgmentKind) (result cacheHit : Bool) :
    (journal.answered query kind result cacheHit).filter = journal.filter := by
  unfold answered
  split <;> simp

@[simp]
theorem filter_assumed : (journal.assumed query key).filter = journal.filter := by
  unfold assumed
  split <;> simp

@[simp]
theorem filter_kept (e : Engine) (before : Nat) (result : Bool) :
    (journal.kept e key before result).filter = journal.filter := by
  unfold kept
  split <;> simp

end

end Log.Journal

namespace Check

inductive Judged (j : Judgment) (compute : Check Bool) (s : Context) : EStateM.Result Failure Context Bool → Prop
  | hit {key ids b} (journal) : s.identities.keyed j = (key, ids) → s.engine.cache.peek key = some b →
      Judged j compute s (.ok b ⟨s.engine.asked key, ids, journal⟩)
  | assumed {key ids} (journal) : s.identities.keyed j = (key, ids) → s.engine.cache.peek key = none →
      (s.engine.subtypeGuard.renewed.enter key).1 = .cycle →
      Judged j compute s
        (.ok true ⟨{ s.engine.tried key with cycleAssumptions := s.engine.cycleAssumptions + 1 }, ids, journal⟩)
  | denied {key ids} (journal) : s.identities.keyed j = (key, ids) → s.engine.cache.peek key = none →
      (s.engine.subtypeGuard.renewed.enter key).1.isExceeded = true →
      Judged j compute s (.error (.recursionLimit .relatingTypes) ⟨s.engine.tried key, ids, journal⟩)
  | computed {key ids b s'} (journal journal') : s.identities.keyed j = (key, ids) →
      s.engine.cache.peek key = none → (s.engine.subtypeGuard.renewed.enter key).1 = .entered →
      compute ⟨s.engine.begun key, ids, journal⟩ = .ok b s' →
      Judged j compute s
        (.ok b ⟨(s'.engine.left key).kept key s.engine.cycleAssumptions b, s'.identities, journal'⟩)
  | failed {key ids e s'} (journal) : s.identities.keyed j = (key, ids) →
      s.engine.cache.peek key = none → (s.engine.subtypeGuard.renewed.enter key).1 = .entered →
      compute ⟨s.engine.begun key, ids, journal⟩ = .error e s' →
      Judged j compute s (.error e { s' with engine := s'.engine.left key })

section
variable (s : Context) (key : JudgmentKey) (query : Option Nat)

theorem startQuery_run : startQuery key s = .ok s.journal.query? { s with journal := s.journal.asked key } := by
  simp only [startQuery, modifyGet, MonadStateOf.modifyGet, EStateM.modifyGet, Log.Journal.query?, Log.Journal.asked]
  split <;> rfl

theorem endQuery_run (kind : JudgmentKind) (result cacheHit : Bool) : endQuery query kind result cacheHit s =
    .ok () { s with journal := s.journal.answered query kind result cacheHit } := by
  cases query <;> rfl

theorem cached_run : cached key s = .ok (s.engine.cache.peek key) { s with engine := s.engine.asked key } := by
  rw [← Cache.lookup_fst]
  rfl

theorem assume_run : assume query key s =
    .ok true { s with
      engine := { s.engine with cycleAssumptions := s.engine.cycleAssumptions + 1 }
      journal := s.journal.assumed query key } := by
  cases query <;> rfl

theorem keep_run (before : Nat) (result : Bool) : keep key before result s =
    .ok () ⟨s.engine.kept key before result, s.identities, s.journal.kept s.engine key before result⟩ := by
  simp only [keep, bind, EStateM.bind, get, getThe, MonadStateOf.get, EStateM.get, Engine.kept, Log.Journal.kept]
  split <;> rfl

end

theorem computeEntered_run (query : Option Nat) (key : JudgmentKey) (compute : Check Bool) (s : Context) :
    computeEntered query key compute s =
      match compute { s with engine := { s.engine with uncachedJudgments := s.engine.uncachedJudgments + 1 } } with
      | .ok b s' => .ok b ⟨(s'.engine.left key).kept key s.engine.cycleAssumptions b, s'.identities,
          (s'.journal.kept (s'.engine.left key) key s.engine.cycleAssumptions b).answered query key.kind b false⟩
      | .error e s' => .error e { s' with engine := s'.engine.left key } := by
  simp only [computeEntered, bind, EStateM.bind, get, getThe, MonadStateOf.get, EStateM.get, modifyEngine, modify,
    modifyGet, MonadStateOf.modifyGet, EStateM.modifyGet, leaving]
  cases compute { s with engine := { s.engine with uncachedJudgments := s.engine.uncachedJudgments + 1 } } with
  | error e s' => rfl
  | ok b s' =>
    have hkeep := keep_run { s' with engine := s'.engine.left key } key s.engine.cycleAssumptions b
    simp only [Engine.left] at hkeep ⊢
    rw [hkeep]
    dsimp only
    rw [endQuery_run]
    rfl

theorem judge_run (j : Judgment) (compute : Check Bool) (s : Context) {key : JudgmentKey} {ids : Identities}
    (hk : s.identities.keyed j = (key, ids)) : judge j compute s =
      match s.engine.cache.peek key with
      | some b => .ok b ⟨s.engine.asked key, ids, (s.journal.asked key).answered s.journal.query? key.kind b true⟩
      | none =>
        match (s.engine.subtypeGuard.renewed.enter key).1 with
        | .entered =>
          match compute ⟨s.engine.begun key, ids, s.journal.asked key⟩ with
          | .ok b s' => .ok b ⟨(s'.engine.left key).kept key s.engine.cycleAssumptions b, s'.identities,
              (s'.journal.kept (s'.engine.left key) key s.engine.cycleAssumptions b).answered s.journal.query?
                key.kind b false⟩
          | .error e s' => .error e { s' with engine := s'.engine.left key }
        | .cycle => .ok true ⟨{ s.engine.tried key with cycleAssumptions := s.engine.cycleAssumptions + 1 }, ids,
            (s.journal.asked key).assumed s.journal.query? key⟩
        | .depthExceeded | .iterationExceeded =>
          .error (.recursionLimit .relatingTypes) ⟨s.engine.tried key, ids, s.journal.asked key⟩ := by
  have hkey : keyOf j s = .ok key { s with identities := ids } := by
    rw [show key = (s.identities.keyed j).1 by rw [hk], show ids = (s.identities.keyed j).2 by rw [hk]]
    rfl
  unfold judge
  rw [bind_of_ok hkey, bind_of_ok (startQuery_run _ key), bind_of_ok (cached_run _ key)]
  cases hp : s.engine.cache.peek key with
  | some b =>
    dsimp only
    rw [bind_of_ok (endQuery_run ..)]
    rfl
  | none =>
    have henter : enterJudgment key ⟨s.engine.asked key, ids, s.journal.asked key⟩ =
        .ok (s.engine.subtypeGuard.renewed.enter key).1 ⟨s.engine.tried key, ids, s.journal.asked key⟩ := rfl
    dsimp only
    rw [bind_of_ok henter]
    cases (s.engine.subtypeGuard.renewed.enter key).1 with
    | cycle => exact assume_run ..
    | entered => exact computeEntered_run ..
    | _ => rfl

theorem judge_judged (j : Judgment) (compute : Check Bool) (s : Context) :
    Judged j compute s (judge j compute s) := by
  rcases hk : s.identities.keyed j with ⟨key, ids⟩
  rw [judge_run j compute s hk]
  cases hp : s.engine.cache.peek key with
  | some b => exact .hit _ hk hp
  | none =>
    cases ha : (s.engine.subtypeGuard.renewed.enter key).1 with
    | cycle => exact .assumed _ hk hp ha
    | depthExceeded => exact .denied _ hk hp (by rw [ha]; rfl)
    | iterationExceeded => exact .denied _ hk hp (by rw [ha]; rfl)
    | entered =>
      dsimp only
      cases hr : compute ⟨s.engine.begun key, ids, s.journal.asked key⟩ with
      | ok b s' => exact .computed _ _ hk hp ha hr
      | error e s' => exact .failed _ hk hp ha hr

/-- The computation matters only in the context in which it is begun. -/
theorem judge_congr {j : Judgment} {m m' : Check Bool} {s : Context}
    (h : ∀ key ids journal, s.identities.keyed j = (key, ids) →
      (s.engine.subtypeGuard.renewed.enter key).1 = .entered →
      m ⟨s.engine.begun key, ids, journal⟩ = m' ⟨s.engine.begun key, ids, journal⟩) :
    judge j m s = judge j m' s := by
  rcases hk : s.identities.keyed j with ⟨key, ids⟩
  rw [judge_run j m s hk, judge_run j m' s hk]
  cases s.engine.cache.peek key with
  | some b => rfl
  | none =>
    cases ha : (s.engine.subtypeGuard.renewed.enter key).1 with
    | entered =>
      dsimp only
      rw [h key ids (s.journal.asked key) hk ha]
    | _ => rfl

end Check

end TypeContracts
