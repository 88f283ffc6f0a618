import TypeContracts.Engine.Basic

/-!
# Deciding a judgment once

A judgment is looked up in the cache, then tried with the guard, and only then computed. One that is already
in progress is assumed to hold. An answer that rests on such an assumption is kept only when it is negative or
when no judgment is in progress any more, so a provisional yes never gets into the cache.
-/

namespace TypeContracts.Check

def keyOf (j : Judgment) : Check JudgmentKey := do
  let source ← identity j.source
  let target ← identity j.target
  return ⟨j.kind, source, target⟩

/-- Reports that a judgment is asked for and gives the query a number, if judgments are traced. -/
def startQuery (key : JudgmentKey) : Check (Option Nat) := modifyGet fun s =>
  if s.journal.tracesJudgments then
    let query := s.journal.nextQuery
    (some query, { s with journal := { s.journal with nextQuery := query + 1 }.record (.judgmentStart query key) })
  else (none, s)

def endQuery (query : Option Nat) (kind : JudgmentKind) (result cacheHit : Bool) : Check Unit :=
  match query with
  | some query => emit (.judgmentEnd query kind result cacheHit)
  | none => return

def cached (key : JudgmentKey) : Check (Option Bool) := modifyGet fun s =>
  let (answer, cache) := s.engine.cache.lookup key
  (answer, { s with engine := { s.engine with cache } })

/-- Tries to begin a judgment. When none is in progress the guard starts over. -/
def enterJudgment (key : JudgmentKey) : Check Admission := modifyGet fun s =>
  let (admission, subtypeGuard) := s.engine.subtypeGuard.renewed.enter key
  (admission, { s with engine := { s.engine with subtypeGuard } })

def assume (query : Option Nat) (key : JudgmentKey) : Check Bool := do
  modifyEngine fun e => { e with cycleAssumptions := e.cycleAssumptions + 1 }
  if query.isSome then emit (.cycleAssumed key)
  return true

/-- Computes a judgment that has been entered, and leaves it however the computation ends. -/
def leaving (key : JudgmentKey) (compute : Check Bool) : Check Bool := fun s =>
  let leave (s : Context) : Context :=
    { s with engine := { s.engine with subtypeGuard := s.engine.subtypeGuard.leave key } }
  match compute s with
  | .ok result s => .ok result (leave s)
  | .error e s => .error e (leave s)

/-- Caches an answer, unless it is a yes that rests on an assumption made since `before` and a judgment is
still in progress. -/
def keep (key : JudgmentKey) (before : Nat) (result : Bool) : Check Unit := do
  let engine := (← get).engine
  if !result || !engine.subtypeGuard.isActive || engine.cycleAssumptions == before then
    modifyEngine fun e => { e with cache := e.cache.insert key result }
  else emit (.notCached key)

def computeEntered (query : Option Nat) (key : JudgmentKey) (compute : Check Bool) : Check Bool := do
  let before := (← get).engine.cycleAssumptions
  modifyEngine fun e => { e with uncachedJudgments := e.uncachedJudgments + 1 }
  let result ← leaving key compute
  keep key before result
  endQuery query key.kind result false
  return result

def judge (j : Judgment) (compute : Check Bool) : Check Bool := do
  let key ← keyOf j
  let query ← startQuery key
  match ← cached key with
  | some answer =>
    endQuery query key.kind answer true
    return answer
  | none =>
    match ← enterJudgment key with
    | .entered => computeEntered query key compute
    | .cycle => assume query key
    | .depthExceeded | .iterationExceeded => throw (.recursionLimit .relatingTypes)

end TypeContracts.Check
