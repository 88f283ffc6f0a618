import TypeContracts.Proofs.Call.Occurrences

/-!
# Violations are notified once

Over a whole run, with calls nested to any depth, the sink hears of exactly the
violations that assertions and call boundaries come to: in order, each once and
where it is made, however many calls it fails afterwards. A body runs once for
each call that is let in, and what it returns is what the call returns.
-/

namespace TypeContracts.Action

/-! ## Assertions and call boundaries -/

section
variable {α : Type} {f : Catalog → Heap → Check α} {w w' : World}

theorem catalog_heap_of_check {a : α} (h : check f w = .ok a w') : w'.catalog = w.catalog ∧ w'.heap = w.heap := by
  have hstate := stateAfter_check f w
  rw [h, stateAfter_ok] at hstate
  rw [hstate]
  exact ⟨rfl, rfl⟩

theorem outcome_violate (message : Catalog → Heap → String) (location : Location) (w : World) :
    outcome (check (fun c h => (Check.violate (message c h) location : Check α)) w) =
      .error (.violation ⟨message w.catalog w.heap, location⟩) := by
  obtain ⟨journal, hrun, -⟩ := Check.violate_run (α := α) (message w.catalog w.heap) location w.context
  rw [outcome_check, hrun]
  rfl

end

/-- The value is handed on, or a violation is made and the assertion fails with it, or the question fails and the
assertion with it. -/
def AssertionEnds (v : Value) (t : TypeRef) (location : Location) (w : World) : Prop :=
  match isType v t w with
  | .ok true w' => assertType v t location w = .ok v w' ∧ assertHistory v t location w = []
  | .ok false _ => outcome (assertType v t location w) = .error (.violation (w.refusal v t location)) ∧
      assertHistory v t location w = [.violated (w.refusal v t location)]
  | .error e w' => assertType v t location w = .error e w' ∧ e.isViolation = false ∧
      assertHistory v t location w = []

/-- Untagged functions are let in, and tagged ones if a signature accepts the arguments. If none does a violation is
made. -/
def EntryEnds (f : FunctionRef) (arguments : List Value) (w : World) : Prop :=
  match (w.heap.function f).tag with
  | none => enterCall f arguments w = .ok () w ∧ entryHistory f arguments w = []
  | some tag =>
    match accepts tag arguments w with
    | .ok true _ => outcome (enterCall f arguments w) = .ok () ∧ entryHistory f arguments w = []
    | .ok false _ => outcome (enterCall f arguments w) = .error (.violation (w.rejection tag arguments)) ∧
        entryHistory f arguments w = [.violated (w.rejection tag arguments)]
    | .error e w' => enterCall f arguments w = .error e w' ∧ e.isViolation = false ∧ entryHistory f arguments w = []

theorem assertType_ends (v : Value) (t : TypeRef) (location : Location) (w : World) : AssertionEnds v t location w := by
  unfold AssertionEnds
  rw [assertType_eq]
  unfold assertHistory History.andThen
  cases h : isType v t w with
  | ok holds w' =>
    rw [bind_of_ok h]
    cases holds with
    | true => exact ⟨rfl, rfl⟩
    | false =>
      obtain ⟨hcatalog, hheap⟩ := catalog_heap_of_check h
      have hcause : w'.refusal v t location = w.refusal v t location := by
        unfold World.refusal
        rw [hcatalog, hheap]
      refine ⟨?_, ?_⟩
      · rw [← hcause]
        exact outcome_violate (refusalText v t) location w'
      · rw [← hcause]
        rfl
  | error e w' => exact ⟨bind_error.mpr (.inl h), (Harmless.check fun _ _ => .isType ..).failure h, rfl⟩

theorem enterCall_ends (f : FunctionRef) (arguments : List Value) (w : World) : EntryEnds f arguments w := by
  unfold EntryEnds
  unfold entryHistory
  cases htag : (w.heap.function f).tag with
  | none => exact ⟨enterCall_of_untagged htag, rfl⟩
  | some tag =>
    dsimp only
    rw [enterCall_of_tagged htag, checkBoundary_eq]
    unfold History.andThen
    cases h : accepts tag arguments w with
    | ok accepted w' =>
      rw [bind_of_ok h]
      cases accepted with
      | true => exact ⟨rfl, rfl⟩
      | false =>
        obtain ⟨hcatalog, hheap⟩ := catalog_heap_of_check h
        have hcause : w'.rejection tag arguments = w.rejection tag arguments := by
          unfold World.rejection
          rw [hcatalog, hheap]
        refine ⟨?_, ?_⟩
        · rw [← hcause]
          exact outcome_violate (rejectionText tag arguments) .unknown _
        · rw [← hcause]
          rfl
    | error e w' => exact ⟨bind_error.mpr (.inl h), (Harmless.check fun c h => .acceptsCall c h _ _).failure h, rfl⟩

theorem enterCall_ok {f : FunctionRef} {arguments : List Value} {w w' : World}
    (h : enterCall f arguments w = .ok () w') : w'.heap = w.heap ∧ entryHistory f arguments w = [] := by
  refine ⟨(catalog_heap_of_check h).2, ?_⟩
  have hends := enterCall_ends f arguments w
  unfold EntryEnds at hends
  rw [h] at hends
  split at hends
  · exact hends.2
  · split at hends
    · exact hends.2
    · cases hends.1
    · cases hends.1

/-! ## Calls -/

def runWithin (depth : Nat) (script : Script) : Action Value := runScript (performWith (applyWithin depth)) script

def historyWithin (depth : Nat) (script : Script) : History :=
  scriptHistory (performWith (applyWithin depth)) (requestHistory (callHistory depth)) script

/-- A call that is let in is one run of the body, and ends as the body does. One that is not runs nothing. -/
def CallEnds (depth : Nat) (f : FunctionRef) (receiver : Value) (arguments : List Value) (w : World) : Prop :=
  match enterCall f arguments w with
  | .ok _ w' =>
    let invocation : Invocation := ⟨receiver, arguments, w.runs f + 1⟩
    let script := (w.heap.function f).body invocation
    applyWithin (depth + 1) f receiver arguments w = runWithin depth script (w'.counted f) ∧
      callHistory (depth + 1) f receiver arguments w = .ran f invocation :: historyWithin depth script (w'.counted f)
  | .error e w' => applyWithin (depth + 1) f receiver arguments w = .error e w' ∧
      callHistory (depth + 1) f receiver arguments w = entryHistory f arguments w

theorem applyWithin_ends (depth : Nat) (f : FunctionRef) (receiver : Value) (arguments : List Value) (w : World) :
    CallEnds depth f receiver arguments w := by
  unfold CallEnds
  cases hentry : enterCall f arguments w with
  | ok u w' =>
    obtain ⟨hheap, hhistory⟩ := enterCall_ok hentry
    have hruns : w.runs f = w'.runs f := by unfold World.runs; rw [hheap]
    have hcall : applyWithin (depth + 1) f receiver arguments w =
        runBody (performWith (applyWithin depth)) f receiver arguments w' := bind_of_ok hentry _
    dsimp only
    rw [hcall, ← hheap, hruns]
    refine ⟨rfl, ?_⟩
    simp only [callHistory, History.andThen, hhistory, hentry]
    rfl
  | error e w' =>
    refine ⟨?_, ?_⟩
    · exact bind_error.mpr (.inl hentry)
    · simp only [callHistory, History.andThen, hentry, List.append_nil]

/-! ## Calls that nest deeper -/

section
variable {call call' : Caller} {called called' : FunctionRef → Value → List Value → History}
  (hcall : ∀ f receiver arguments w, (∀ g, .cut g ∉ called f receiver arguments w) →
    call' f receiver arguments w = call f receiver arguments w ∧
      called' f receiver arguments w = called f receiver arguments w)
include hcall

theorem performWith_deeper (r : Request) (w : World) (hcut : ∀ g, .cut g ∉ requestHistory called r w) :
    performWith call' r w = performWith call r w ∧ requestHistory called' r w = requestHistory called r w := by
  have hmap : ∀ {f receiver arguments}, (∀ g, .cut g ∉ called f receiver arguments w) →
      performWith call' (.apply f receiver arguments) w = performWith call (.apply f receiver arguments) w ∧
        called' f receiver arguments w = called f receiver arguments w := by
    intro f receiver arguments hcut
    obtain ⟨hsame, hhistory⟩ := hcall f receiver arguments w hcut
    refine ⟨?_, hhistory⟩
    simp only [performWith, Bind.bind, EStateM.bind, hsame]
  cases r with
  | apply f receiver arguments => exact hmap hcut
  | callValue callee receiver arguments =>
    cases callee with
    | function f => exact hmap hcut
    | _ => exact ⟨rfl, rfl⟩
  | _ => exact ⟨rfl, rfl⟩

end

theorem runScript_deeper {perform perform' : Request → Action Answer} {asked asked' : Request → History}
    (hp : ∀ r w, (∀ g, .cut g ∉ asked r w) → perform' r w = perform r w ∧ asked' r w = asked r w) :
    ∀ script w, (∀ g, .cut g ∉ scriptHistory perform asked script w) →
      runScript perform' script w = runScript perform script w ∧
        scriptHistory perform' asked' script w = scriptHistory perform asked script w
  | .stop result, w, _ => ⟨rfl, rfl⟩
  | .ask request next, w, hcut => by
    unfold scriptHistory at hcut
    obtain ⟨hperform, hasked⟩ := hp request w fun g hg => hcut g (List.mem_append_left _ hg)
    unfold runScript scriptHistory
    rw [hperform, hasked]
    cases hr : perform request w with
    | ok answer w' =>
      rw [hr] at hcut
      obtain ⟨hrun, hhistory⟩ :=
        runScript_deeper hp (next (.ok answer)) w' fun g hg => hcut g (List.mem_append_right _ hg)
      exact ⟨hrun, congrArg _ hhistory⟩
    | error e w' =>
      rw [hr] at hcut
      obtain ⟨hrun, hhistory⟩ :=
        runScript_deeper hp (next (.error e)) w' fun g hg => hcut g (List.mem_append_right _ hg)
      exact ⟨hrun, congrArg _ hhistory⟩

theorem applyWithin_deeper {depth depth' : Nat} (hle : depth ≤ depth') (f : FunctionRef) (receiver : Value)
    (arguments : List Value) (w : World) (hcut : ∀ g, .cut g ∉ callHistory depth f receiver arguments w) :
    applyWithin depth' f receiver arguments w = applyWithin depth f receiver arguments w ∧
      callHistory depth' f receiver arguments w = callHistory depth f receiver arguments w := by
  induction depth generalizing depth' f receiver arguments w with
  -- without any budget the call itself is cut
  | zero => exact absurd (List.mem_singleton.mpr rfl) (hcut f)
  | succ depth ih =>
    obtain ⟨depth', rfl⟩ : ∃ n, depth' = n + 1 := ⟨depth' - 1, by omega⟩
    have hp := performWith_deeper (ih (Nat.le_of_succ_le_succ hle : depth ≤ depth'))
    have hends := applyWithin_ends depth f receiver arguments w
    have hends' := applyWithin_ends depth' f receiver arguments w
    unfold CallEnds at hends hends'
    cases hentry : enterCall f arguments w with
    | ok u w' =>
      rw [hentry] at hends hends'
      obtain ⟨hrun, hhistory⟩ := hends
      obtain ⟨hrun', hhistory'⟩ := hends'
      rw [hhistory] at hcut
      obtain ⟨hsame, hsame'⟩ := runScript_deeper hp _ _ fun g hg => hcut g (List.mem_cons_of_mem _ hg)
      rw [hrun, hrun', hhistory, hhistory']
      exact ⟨hsame, congrArg _ hsame'⟩
    | error e w' =>
      rw [hentry] at hends hends'
      exact ⟨hends'.1.trans hends.1.symm, hends'.2.trans hends.2.symm⟩

/-! ## Whole runs -/

/-- What is notified in a run, and which bodies are run. How deep calls may nest matters only to runs that nest
deeper. -/
theorem violations_notified_once (depth : Nat) :
    -- all that is notified, and every run of a body, is in the history
    (∀ script, Recounts (runWithin depth script) (historyWithin depth script)) ∧
    (∀ request, Recounts (performWith (applyWithin depth) request) (requestHistory (callHistory depth) request)) ∧
    -- violations come from assertions and from the boundary of calls, which fail with them
    (∀ request, mayViolate request = false → Harmless (performWith (applyWithin depth) request)) ∧
    (∀ v t location w, AssertionEnds v t location w) ∧
    (∀ f arguments w, EntryEnds f arguments w) ∧
    -- a call adds one run of the body, and nothing to what the body does
    (∀ f receiver arguments w, CallEnds depth f receiver arguments w) ∧
    (∀ depth' script w, depth ≤ depth' → (∀ f, .cut f ∉ historyWithin depth script w) →
      runWithin depth' script w = runWithin depth script w ∧
        historyWithin depth' script w = historyWithin depth script w) := by
  have hperform := performWith_recounts (applyWithin_recounts depth)
  refine ⟨runScript_recounts hperform, hperform, fun request hr => performWith_harmless hr _, assertType_ends,
    enterCall_ends, applyWithin_ends depth, ?_⟩
  intro depth' script w hle hcut
  exact runScript_deeper (performWith_deeper (applyWithin_deeper hle)) script w hcut

def passOn (f : FunctionRef) : Body := fun _ => .request (.apply f .undefined [.string "x"])

/-- Three functions. The first wants a number, and each of the others calls the one before it with a text. -/
def relayed : World :=
  { catalog := {
      types := #[.numeric, .void, .object none (some { callSignatures := [⟨0⟩] })]
      signatures := #[{ parameters := [⟨0⟩], mandatory := 1, rest := none, result := ⟨1⟩ }] }
    heap := { functions := #[{ tag := some ⟨2⟩ }, { body := passOn ⟨0⟩ }, { body := passOn ⟨1⟩ }] }
    context := { engine := { Engine.create {} with notifies := true }, identities := {}, journal := {} } }

def relay : Script := .request (.callValue (.function ⟨2⟩) .undefined [.string "x"])

/-- The violation of the innermost call fails all three, and is notified once. -/
theorem violations_notified_once_relayed :
    let w := stateAfter (runWithin 3 relay relayed)
    w.notices =
        [("Function:\n\x7b\n  (number) => undefined;\n\x7d\nis not callable with arguments:\n['x']", .unknown)] ∧
      w.runs ⟨0⟩ = 0 ∧ w.runs ⟨1⟩ = 1 ∧ w.runs ⟨2⟩ = 1 ∧
      runWithin maxCallDepth relay relayed = runWithin 3 relay relayed := by
  obtain ⟨hruns, -, -, -, -, -, hdeeper⟩ := violations_notified_once 3
  have h := hruns relay relayed
  have hall : (historyWithin 3 relay relayed).all (fun o => match o with | .cut _ => false | _ => true) = true := by
    decide +kernel
  have hcut : ∀ f, .cut f ∉ historyWithin 3 relay relayed := by
    intro f hf
    have hnot := List.all_eq_true.mp hall _ hf
    cases hnot
  refine ⟨h.notices.trans ?_, (h.runs ⟨0⟩ ?_).trans ?_, (h.runs ⟨1⟩ ?_).trans ?_, (h.runs ⟨2⟩ ?_).trans ?_,
    (hdeeper maxCallDepth relay relayed (by decide) hcut).1⟩
  all_goals decide +kernel

end TypeContracts.Action
