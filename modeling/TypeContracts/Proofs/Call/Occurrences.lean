import TypeContracts.Proofs.Call.Exactness
import TypeContracts.Proofs.Call.Quiet

/-!
# What happens in a run

A run makes violations and runs bodies, and a body may ask for anything that a
run may. Its history is the list of these occurrences in order, with those of a
nested call in the place of the call. `Recounts` says that a history accounts
for all that is notified and for every run of a body; it holds of every action.
-/

namespace TypeContracts

inductive Occurrence where
  | violated (cause : Violation)
  | ran (function : FunctionRef) (invocation : Invocation)
  | cut (function : FunctionRef)

namespace Occurrence

def notice? : Occurrence → Option (String × Location)
  | violated cause => some (cause.message, cause.location)
  | _ => none

def isRunOf (f : FunctionRef) : Occurrence → Bool
  | ran g _ => g == f
  | _ => false

end Occurrence

def refusalText (v : Value) (t : TypeRef) (c : Catalog) (h : Heap) : String :=
  "Value:\n" ++ h.valueText c v ++ "\nis not assignable to type:\n" ++ c.typeText t

def rejectionText (tag : TypeRef) (arguments : List Value) (c : Catalog) (h : Heap) : String :=
  "Function:\n" ++ c.typeText tag ++ "\nis not callable with arguments:\n[" ++ h.listText c arguments ++ "]"

namespace World

def notices (w : World) : List (String × Location) := w.context.journal.notices.toList

def notifies (w : World) : Bool := w.context.engine.notifies

def runs (w : World) (f : FunctionRef) : Nat := (w.heap.function f).runs

def counted (w : World) (f : FunctionRef) : World := { w with heap := w.heap.countRun f }

def refusal (w : World) (v : Value) (t : TypeRef) (location : Location) : Violation :=
  ⟨refusalText v t w.catalog w.heap, location⟩

def rejection (w : World) (tag : TypeRef) (arguments : List Value) : Violation :=
  ⟨rejectionText tag arguments w.catalog w.heap, .unknown⟩

end World

abbrev History := World → List Occurrence

namespace History

def silent : History := fun _ => []

/-- The history of `m`, and if it does not fail that of what comes after it. -/
def andThen {α : Type} (m : Action α) (first : History) (next : α → History) : History := fun w =>
  first w ++ match m w with
    | .ok a w' => next a w'
    | .error _ _ => []

end History

@[simp]
theorem History.andThen_silent {α : Type} (m : Action α) : History.andThen m .silent (fun _ => .silent) = .silent := by
  funext w
  simp only [andThen, silent, List.nil_append]
  cases m w <;> rfl

namespace Action

def accepts (tag : TypeRef) (arguments : List Value) : Action Bool := check fun c h => acceptsCall c h tag arguments

/-! ## Histories -/

def violated (cause : World → Violation) : History := fun w => [.violated (cause w)]

def assertHistory (v : Value) (t : TypeRef) (location : Location) : History :=
  .andThen (isType v t) .silent fun holds => if holds then .silent else violated fun w => w.refusal v t location

def entryHistory (f : FunctionRef) (arguments : List Value) : History := fun w =>
  match (w.heap.function f).tag with
  | some tag =>
    History.andThen (accepts tag arguments) .silent
      (fun accepted => if accepted then .silent else violated fun w => w.rejection tag arguments) w
  | none => []

def requestHistory (called : FunctionRef → Value → List Value → History) : Request → History
  | .assertType v t location => assertHistory v t location
  | .apply f receiver arguments => called f receiver arguments
  | .callValue (.function f) receiver arguments => called f receiver arguments
  | _ => .silent

def scriptHistory (perform : Request → Action Answer) (asked : Request → History) : Script → History
  | .stop _ => .silent
  | .ask request next => fun w =>
    asked request w ++ match perform request w with
      | .ok answer w' => scriptHistory perform asked (next (.ok answer)) w'
      | .error e w' => scriptHistory perform asked (next (.error e)) w'

def bodyHistory (perform : Request → Action Answer) (asked : Request → History) (f : FunctionRef) (receiver : Value)
    (arguments : List Value) : History := fun w =>
  let invocation : Invocation := ⟨receiver, arguments, w.runs f + 1⟩
  .ran f invocation :: scriptHistory perform asked ((w.heap.function f).body invocation) (w.counted f)

def callHistory : Nat → FunctionRef → Value → List Value → History
  | 0, f, _, _ => fun _ => [.cut f]
  | budget + 1, f, receiver, arguments =>
    -- a call that is not let in ends with what its check has come to
    .andThen (enterCall f arguments) (entryHistory f arguments) fun _ =>
      bodyHistory (performWith (applyWithin budget)) (requestHistory (callHistory budget)) f receiver arguments

end Action

/-! ## Functions on the heap -/

namespace Heap

variable (h : Heap) (f g : FunctionRef)

theorem size_modifyFunction (k : Function → Function) :
    (h.modifyFunction f k).functions.size = h.functions.size := by
  simp [modifyFunction]

theorem function_modifyFunction (k : Function → Function) (hg : g.index < h.functions.size) :
    (h.modifyFunction f k).function g = if f = g then k (h.function g) else h.function g := by
  have hindex : f = g ↔ f.index = g.index := by
    obtain ⟨i⟩ := f
    obtain ⟨j⟩ := g
    simp
  simp only [modifyFunction, function, Array.getD_eq_getD_getElem?, Array.getElem?_modify, hindex]
  split
  · simp [hg]
  · rfl

theorem runs_modifyFunction {k : Function → Function} (hk : ∀ x, (k x).runs = x.runs)
    (hg : g.index < h.functions.size) : ((h.modifyFunction f k).function g).runs = (h.function g).runs := by
  rw [function_modifyFunction h f g k hg]
  split
  · exact hk _
  · rfl

theorem runs_newFunction (name : Option String) (proto : Option ObjectRef) (body : Body)
    (hg : g.index < h.functions.size) :
    ((h.newFunction name proto body).2.function g).runs = (h.function g).runs := by
  simp [newFunction, function, Array.getElem?_push, Nat.ne_of_lt hg]

end Heap

/-! ## Actions and their histories -/

/-- From `w` to `w'` the sink has heard of the violations among the occurrences, in order and of nothing else, and
each body has been run as often as they say. -/
structure World.Recounted (w w' : World) (occurrences : List Occurrence) : Prop where
  notifies : w'.notifies = w.notifies
  notices : w'.notices = w.notices ++ if w.notifies then occurrences.filterMap Occurrence.notice? else []
  functions : w.heap.functions.size ≤ w'.heap.functions.size
  runs : ∀ f : FunctionRef, f.index < w.heap.functions.size →
    w'.runs f = w.runs f + occurrences.countP (Occurrence.isRunOf f)

namespace World.Recounted

variable {w w₁ w₂ : World}

theorem nil (hn : w₁.notices = w.notices) (he : w₁.notifies = w.notifies)
    (hsize : w.heap.functions.size ≤ w₁.heap.functions.size)
    (hruns : ∀ f : FunctionRef, f.index < w.heap.functions.size → w₁.runs f = w.runs f) : w.Recounted w₁ [] where
  notifies := he
  notices := by simp [hn]
  functions := hsize
  runs f hf := by simp [hruns f hf]

theorem refl (w : World) : w.Recounted w [] := nil rfl rfl (Nat.le_refl _) fun _ _ => rfl

theorem append {first rest : List Occurrence} (h₁ : w.Recounted w₁ first) (h₂ : w₁.Recounted w₂ rest) :
    w.Recounted w₂ (first ++ rest) where
  notifies := h₂.notifies.trans h₁.notifies
  notices := by
    rw [h₂.notices, h₁.notices, h₁.notifies, List.append_assoc, List.filterMap_append]
    split <;> simp
  functions := h₁.functions.trans h₂.functions
  runs f hf := by
    rw [h₂.runs f (Nat.lt_of_lt_of_le hf h₁.functions), h₁.runs f hf, List.countP_append, Nat.add_assoc]

end World.Recounted

/-- Every run of the action, a failed one included, is as the history says. -/
def Recounts {α : Type} (m : Action α) (history : History) : Prop :=
  ∀ w : World, w.Recounted (stateAfter (m w)) (history w)

namespace Recounts

variable {α β : Type} {m : Action α} {H : History}

theorem pure (a : α) : Recounts (Pure.pure a : Action α) .silent := fun w => .refl w

theorem throw (e : Failure) : Recounts (MonadExcept.throw e : Action α) .silent := fun w => .refl w

theorem bind {f : α → Action β} {K : α → History} (hm : Recounts m H) (hf : ∀ a, Recounts (f a) (K a)) :
    Recounts (m >>= f) (.andThen m H K) := by
  intro w
  have hw := hm w
  simp only [Bind.bind, EStateM.bind, History.andThen]
  cases h : m w with
  | ok a w' => rw [h] at hw; exact hw.append (hf a w')
  | error e w' => rw [h] at hw; rw [List.append_nil]; exact hw

theorem map (hm : Recounts m H) (f : α → β) : Recounts (m >>= fun a => Pure.pure (f a)) H := by
  intro w
  rw [stateAfter_bind_pure]
  exact hm w

theorem violate (message : Catalog → Heap → String) (location : Location) :
    Recounts (Action.check fun c h => (Check.violate (message c h) location : Check α))
      (Action.violated fun w => ⟨message w.catalog w.heap, location⟩) := by
  intro w
  obtain ⟨journal, hrun, hn⟩ := Check.violate_run (α := α) (message w.catalog w.heap) location w.context
  rw [stateAfter_check, hrun]
  refine ⟨rfl, ?_, Nat.le_refl _, fun f _ => rfl⟩
  show journal.notices.toList = _
  rw [hn]
  unfold World.notices World.notifies
  cases w.context.engine.notifies <;> simp [Action.violated, Occurrence.notice?]

end Recounts

/-! ## Actions without occurrences -/

/-- Nothing is notified, no body is run, and what the action fails with is no violation. -/
structure Harmless {α : Type} (m : Action α) : Prop where
  recounts : Recounts m .silent
  failure : ∀ {w e w'}, m w = .error e w' → e.isViolation = false

namespace Harmless

variable {α β : Type} {m : Action α}

theorem check {f : Catalog → Heap → Check α} (hf : ∀ c h, Quiet (f c h)) : Harmless (Action.check f) where
  recounts w := by
    rw [stateAfter_check]
    have hn := (hf w.catalog w.heap).notices w.context
    exact .nil (congrArg Array.toList hn) ((hf _ _).notifies w.context) (Nat.le_refl _) fun _ _ => rfl
  failure {w e w'} h := by
    unfold Action.check at h
    cases hrun : f w.catalog w.heap w.context with
    | ok a s => rw [hrun] at h; cases h
    | error e' s => rw [hrun] at h; cases h; exact (hf _ _).failure hrun

theorem modifyHeap (f : Heap → α × Heap) (hsize : ∀ h, h.functions.size ≤ (f h).2.functions.size)
    (hruns : ∀ h (g : FunctionRef), g.index < h.functions.size → ((f h).2.function g).runs = (h.function g).runs) :
    Harmless (Action.modifyHeap f) where
  recounts w := .nil rfl rfl (hsize w.heap) (hruns w.heap)
  failure h := by cases h

theorem modifyFunction (a : α) (f : FunctionRef) {k : Function → Function} (hk : ∀ x, (k x).runs = x.runs) :
    Harmless (Action.modifyHeap fun h => (a, h.modifyFunction f k)) := by
  refine modifyHeap _ (fun h => ?_) fun h g hg => ?_
  · exact Nat.le_of_eq (h.size_modifyFunction f k).symm
  · exact h.runs_modifyFunction f g hk hg

theorem modifyValues (f : Heap → α × Heap) (hf : ∀ h, (f h).2.functions = h.functions) :
    Harmless (Action.modifyHeap f) :=
  modifyHeap f (fun h => by rw [hf]) fun h g _ => by unfold Heap.function; rw [hf]

theorem modifyCatalog (f : Catalog → α × Catalog) : Harmless (Action.modifyCatalog f) where
  recounts _ := .nil rfl rfl (Nat.le_refl _) fun _ _ => rfl
  failure h := by cases h

theorem bind {f : α → Action β} (hm : Harmless m) (hf : ∀ a, Harmless (f a)) : Harmless (m >>= f) where
  recounts := by
    have h := hm.recounts.bind fun a => (hf a).recounts
    rwa [History.andThen_silent] at h
  failure h := by
    obtain h | ⟨a, w₁, -, h⟩ := bind_error.mp h
    · exact hm.failure h
    · exact (hf a).failure h

theorem map (hm : Harmless m) (f : α → β) : Harmless (m >>= fun a => Pure.pure (f a)) :=
  hm.bind fun a => ⟨.pure (f a), fun h => by cases h⟩

end Harmless

namespace Action

section
variable {α β : Type}

/-- Nothing that a check looks at is changed by one. -/
theorem check_bind (f : Catalog → Heap → Check α) (g : α → Catalog → Heap → Check β) :
    (check fun c h => f c h >>= fun a => g a c h) = check f >>= fun a => check (g a) := by
  funext w
  simp only [check, Bind.bind, EStateM.bind]
  cases f w.catalog w.heap w.context <;> rfl

end

theorem assertType_eq (v : Value) (t : TypeRef) (location : Location) :
    assertType v t location = isType v t >>= fun holds =>
      if holds then pure v else check fun c h => Check.violate (refusalText v t c h) location := by
  have hbind := check_bind (fun c h => Conformance.isType c h v t) fun holds c h =>
    if holds then pure v else Check.violate (refusalText v t c h) location
  refine hbind.trans (congrArg (isType v t >>= ·) ?_)
  funext holds
  cases holds <;> rfl

theorem checkBoundary_eq (tag : TypeRef) (arguments : List Value) :
    (check fun c h => checkBoundary c h tag arguments) = accepts tag arguments >>= fun accepted =>
      if accepted then check fun _ _ => Check.emit (.callAccepted arguments.length)
      else check (fun _ _ => Check.emit (.callRejected arguments.length)) >>= fun _ =>
        check fun c h => Check.violate (rejectionText tag arguments c h) .unknown := by
  have hbind := check_bind (fun c h => acceptsCall c h tag arguments) fun accepted c h =>
    if accepted then Check.emit (.callAccepted arguments.length)
    else Check.emit (.callRejected arguments.length) >>= fun _ =>
      Check.violate (rejectionText tag arguments c h) .unknown
  simp only [acceptsCall, bind_assoc] at hbind
  refine hbind.trans (congrArg (accepts tag arguments >>= ·) ?_)
  funext accepted
  cases accepted with
  | true => rfl
  | false => exact check_bind (fun _ _ => Check.emit (.callRejected arguments.length)) fun _ c h =>
      Check.violate (rejectionText tag arguments c h) .unknown

end Action

/-! ## All actions are recounted -/

namespace Action

section
variable {f : FunctionRef} {arguments : List Value} {w : World}

theorem enterCall_of_untagged (h : (w.heap.function f).tag = none) : enterCall f arguments w = .ok () w := by
  simp only [enterCall, check, h]
  rfl

theorem enterCall_of_tagged {tag : TypeRef} (h : (w.heap.function f).tag = some tag) :
    enterCall f arguments w = check (fun c h => checkBoundary c h tag arguments) w := by
  simp only [enterCall, check, h]

end

theorem assertType_recounts (v : Value) (t : TypeRef) (location : Location) :
    Recounts (assertType v t location) (assertHistory v t location) := by
  rw [assertType_eq]
  have hask : Harmless (isType v t) := .check fun _ _ => .isType ..
  refine hask.recounts.bind fun holds => ?_
  cases holds with
  | true => exact .pure v
  | false => exact .violate (refusalText v t) location

theorem checkBoundary_recounts (tag : TypeRef) (arguments : List Value) :
    Recounts (check fun c h => checkBoundary c h tag arguments)
      (.andThen (accepts tag arguments) .silent fun accepted =>
        if accepted then .silent else violated fun w => w.rejection tag arguments) := by
  rw [checkBoundary_eq]
  have hask : Harmless (accepts tag arguments) := .check fun c h => .acceptsCall c h tag arguments
  have hemit : ∀ e, Harmless (check fun _ _ => Check.emit e) := fun e => .check fun _ _ => .emit e
  refine hask.recounts.bind fun accepted => ?_
  cases accepted with
  | true => exact (hemit _).recounts
  -- what is said of the arguments is the same before and after the event
  | false => exact (hemit _).recounts.bind fun _ => .violate (rejectionText tag arguments) .unknown

theorem enterCall_recounts (f : FunctionRef) (arguments : List Value) :
    Recounts (enterCall f arguments) (entryHistory f arguments) := by
  intro w
  unfold entryHistory
  cases htag : (w.heap.function f).tag with
  | none => rw [enterCall_of_untagged htag]; exact .refl w
  | some tag => rw [enterCall_of_tagged htag]; exact checkBoundary_recounts tag arguments w

/-- Assertions and calls come to violations, and nothing else does. -/
def mayViolate : Request → Bool
  | .assertType .. | .apply .. | .callValue (.function _) .. => true
  | _ => false

theorem registerType_harmless (t : TypeRef) (f : FunctionRef) : Harmless (registerType t f) := by
  refine (Harmless.check fun c h => ?_).bind fun _ => .modifyFunction f f fun _ => rfl
  exact (Quiet.ofExcept fun e => Catalog.isViolation_of_shape).bind fun _ => (Quiet.identity _).bind fun _ => .emit _

theorem defineObject_harmless (t : TypeRef) (shape : Shape) : Harmless (defineObject t shape) where
  recounts w := by
    unfold defineObject
    split
    · exact .nil rfl rfl (Nat.le_refl _) fun _ _ => rfl
    · exact .refl w
  failure {w e w'} h := by
    simp only [defineObject, Catalog.defineObject] at h
    cases hg : w.catalog.get t with
    | object name shape => rw [hg] at h; cases shape <;> cases h; rfl
    | _ => rw [hg] at h; cases h; rfl

theorem performWith_harmless {r : Request} (hr : mayViolate r = false) (call : Caller) :
    Harmless (performWith call r) := by
  cases r with
  | assertType v t location => cases hr
  | apply f receiver arguments => cases hr
  | callValue callee receiver arguments =>
    refine Harmless.map (m := callValueWith call callee receiver arguments) ?_ _
    cases callee with
    | function f => cases hr
    | _ => exact .check fun c h => Quiet.throw (e := .notCallable (h.valueText c _)) rfl
  | isType v t => exact (Harmless.check fun _ _ => .isType ..).map _
  | isCompatible source target => exact (Harmless.check fun _ _ => .resolve ..).map _
  | areSignaturesCompatible source target => exact (Harmless.check fun _ _ => .resolve ..).map _
  | registerType t f => exact (registerType_harmless t f).map _
  | reset =>
    have hreset : Harmless reset := .check fun _ _ => .modifyEngine (f := Engine.reset) fun _ => rfl
    exact hreset.map _
  | addType d => exact (Harmless.modifyCatalog _).map _
  | addSignature s => exact (Harmless.modifyCatalog _).map _
  | defineObject t shape => exact (defineObject_harmless t shape).map _
  | newFunction name proto body =>
    refine (Harmless.modifyHeap _ (fun h => ?_) fun h g hg => ?_).map _
    · simp [Heap.newFunction]
    · exact h.runs_newFunction g name proto body hg
  | setFunctionProperty f key v => exact Harmless.modifyFunction Answer.done f fun _ => rfl
  | getProperty v key => exact (Harmless.check fun _ _ => .pure _).map _
  | setProperty r key v => exact Harmless.modifyValues (fun h => (Answer.done, h.setProperty r key v)) fun _ => rfl
  | setElement r index v => exact Harmless.modifyValues (fun h => (Answer.done, h.setElement r index v)) fun _ => rfl
  | pushElement r v => exact Harmless.modifyValues (fun h => (Answer.done, h.pushElement r v)) fun _ => rfl
  | _ => exact (Harmless.modifyValues _ fun _ => rfl).map _

theorem requestHistory_of_harmless {r : Request} (hr : mayViolate r = false)
    (called : FunctionRef → Value → List Value → History) : requestHistory called r = .silent := by
  cases r with
  | assertType v t location => cases hr
  | apply f receiver arguments => cases hr
  | callValue callee receiver arguments =>
    cases callee with
    | function f => cases hr
    | _ => rfl
  | _ => rfl

theorem performWith_recounts {call : Caller} {called : FunctionRef → Value → List Value → History}
    (hcall : ∀ f receiver arguments, Recounts (call f receiver arguments) (called f receiver arguments)) (r : Request) :
    Recounts (performWith call r) (requestHistory called r) := by
  cases hr : mayViolate r with
  | false =>
    rw [requestHistory_of_harmless hr]
    exact (performWith_harmless hr call).recounts
  | true =>
    cases r with
    | assertType v t location => exact (assertType_recounts v t location).map _
    | apply f receiver arguments => exact (hcall f receiver arguments).map _
    | callValue callee receiver arguments =>
      cases callee with
      | function f => exact (hcall f receiver arguments).map _
      | _ => cases hr
    | _ => cases hr

theorem runScript_recounts {perform : Request → Action Answer} {asked : Request → History}
    (hp : ∀ r, Recounts (perform r) (asked r)) :
    ∀ script, Recounts (runScript perform script) (scriptHistory perform asked script)
  | .stop (.ok v) => .pure v
  | .stop (.error e) => .throw e
  | .ask request next => fun w => by
    have hw := hp request w
    unfold runScript scriptHistory
    cases hr : perform request w with
    | ok answer w' => rw [hr] at hw; exact hw.append (runScript_recounts hp (next (.ok answer)) w')
    | error e w' => rw [hr] at hw; exact hw.append (runScript_recounts hp (next (.error e)) w')

theorem runBody_recounts {perform : Request → Action Answer} {asked : Request → History}
    (hp : ∀ r, Recounts (perform r) (asked r)) (f : FunctionRef) (receiver : Value) (arguments : List Value) :
    Recounts (runBody perform f receiver arguments) (bodyHistory perform asked f receiver arguments) := by
  intro w
  -- the run is counted first, so that the body sees its own number
  have hran : w.Recounted (w.counted f) [.ran f ⟨receiver, arguments, w.runs f + 1⟩] := by
    refine ⟨rfl, by simp [Occurrence.notice?, World.notices, World.counted], ?_, fun g hg => ?_⟩
    · exact Nat.le_of_eq (w.heap.size_modifyFunction f _).symm
    · have hfunction : (w.heap.countRun f).function g = _ := w.heap.function_modifyFunction f g _ hg
      simp only [World.runs, World.counted, hfunction]
      by_cases hf : f = g <;> simp [hf, Occurrence.isRunOf]
  exact hran.append (runScript_recounts hp _ (w.counted f))

theorem applyWithin_recounts (budget : Nat) (f : FunctionRef) (receiver : Value) (arguments : List Value) :
    Recounts (applyWithin budget f receiver arguments) (callHistory budget f receiver arguments) := by
  induction budget generalizing f receiver arguments with
  | zero =>
    intro w
    have hsilent : (callHistory 0 f receiver arguments w).filterMap Occurrence.notice? = [] := rfl
    refine ⟨rfl, ?_, Nat.le_refl _, fun _ _ => rfl⟩
    rw [hsilent, ite_self, List.append_nil]
    rfl
  | succ budget ih =>
    exact (enterCall_recounts f arguments).bind fun _ => runBody_recounts (performWith_recounts ih) f receiver arguments

end Action

end TypeContracts
