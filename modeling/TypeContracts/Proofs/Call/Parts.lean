import TypeContracts.Call.World
import TypeContracts.Proofs.Inquiry

/-!
# What requests are made of

A property of checks and actions that is kept by sequencing, and by going on
after a failure, holds of every request if it holds of the parts that requests
are made of (`Action.Steps.performWithin`): the two sorts of question, identities,
events, and changes of the catalog and of the heap, where only a registration
changes a tag. A reset is named apart, for runs that have none.
-/

namespace TypeContracts

structure Sequential {ε σ : Type} (P : (α : Type) → EStateM ε σ α → Prop) : Prop where
  pure : ∀ {α : Type} (a : α), P α (Pure.pure a)
  throw : ∀ {α : Type} (e : ε), P α (MonadExcept.throw e)
  bind : ∀ {α β : Type} {m : EStateM ε σ α} {f : α → EStateM ε σ β}, P α m → (∀ a, P β (f a)) → P β (m >>= f)

theorem Sequential.anyM {ε σ β : Type} {P : (α : Type) → EStateM ε σ α → Prop} (hP : Sequential P) {l : List β}
    {f : β → EStateM ε σ Bool} (hf : ∀ x, P Bool (f x)) : P Bool (l.anyM f) := by
  induction l with
  | nil => exact hP.pure false
  | cons x l ih =>
    rw [List.anyM_cons]
    refine hP.bind (hf x) fun b => ?_
    cases b with
    | true => exact hP.pure true
    | false => exact ih

/-! ## Checks -/

structure Check.Parts (c : Catalog) (h : Heap) (Q : (α : Type) → Check α → Prop) : Prop extends Sequential Q where
  resolve : ∀ j, Q Bool (Compatibility.resolve c j)
  isType : ∀ v t, Q Bool (Conformance.isType c h v t)
  identity : ∀ g, Q Identity (Check.identity g)
  emit : ∀ e, Q Unit (Check.emit e)
  notify : ∀ message location, Q Unit (modify fun s =>
    if s.engine.notifies then { s with journal := s.journal.notify message location } else s)

namespace Check.Parts

variable {c : Catalog} {h : Heap} {Q : (α : Type) → Check α → Prop} (hQ : Check.Parts c h Q)
include hQ

theorem violate {α : Type} (message : String) (location : Location) : Q α (Check.violate message location) :=
  hQ.bind (hQ.emit _) fun _ => hQ.bind (hQ.notify message location) fun _ => hQ.throw _

theorem ofExcept {α : Type} (r : Except Failure α) : Q α (Check.ofExcept r) := by
  cases r with
  | ok a => exact hQ.pure a
  | error e => exact hQ.throw e

theorem assertType (v : Value) (t : TypeRef) (location : Location) :
    Q Value (TypeContracts.assertType c h v t location) := by
  refine hQ.bind (hQ.isType v t) fun b => ?_
  cases b with
  | true => exact hQ.pure v
  | false => exact hQ.violate _ _

theorem argumentsConform (s : Signature) (index : Nat) (arguments : List Value) :
    Q Bool (TypeContracts.argumentsConform c h s index arguments) := by
  induction arguments generalizing index with
  | nil => exact hQ.pure true
  | cons v rest ih =>
    unfold TypeContracts.argumentsConform
    split
    · exact hQ.pure true
    · refine hQ.bind (hQ.isType _ _) fun b => ?_
      cases b with
      | true => exact ih (index + 1)
      | false => exact hQ.pure false

theorem checkBoundary (tag : TypeRef) (arguments : List Value) :
    Q Unit (TypeContracts.checkBoundary c h tag arguments) := by
  refine hQ.bind (hQ.ofExcept _) fun shape => hQ.bind (hQ.anyM fun s => ?_) fun b => ?_
  · unfold signatureAccepts
    split
    · exact hQ.pure false
    · exact hQ.argumentsConform _ 0 arguments
  · cases b with
    | true => exact hQ.emit _
    | false => exact hQ.bind (hQ.emit _) fun _ => hQ.violate _ _

end Check.Parts

/-! ## Tags -/

/-- Every function has the tag that it had, or is still without one. -/
def Heap.SameTags (h h' : Heap) : Prop := ∀ f, (h'.function f).tag = (h.function f).tag

namespace Heap.SameTags

theorem of_functions {h h' : Heap} (hfunctions : h'.functions = h.functions) : h.SameTags h' := by
  intro f
  simp only [function, hfunctions]

/-- There is no tag before a function is made, and none afterwards. -/
theorem newFunction (h : Heap) (name : Option String) (proto : Option ObjectRef) (body : Body) :
    h.SameTags (h.newFunction name proto body).2 := by
  intro f
  simp only [Heap.newFunction, function, Array.getD_eq_getD_getElem?, Array.getElem?_push]
  split
  · simp_all
    rfl
  · rfl

theorem modifyFunction (h : Heap) (r : FunctionRef) {change : Function → Function}
    (hchange : ∀ x, (change x).tag = x.tag) : h.SameTags (h.modifyFunction r change) := by
  intro f
  simp only [Heap.modifyFunction, function, Array.getD_eq_getD_getElem?, Array.getElem?_modify]
  split
  · cases h.functions[f.index]? with
    | none => rfl
    | some x => exact hchange x
  · rfl

end Heap.SameTags

/-! ## Actions -/

/-- Does something and goes on, also after a failure. -/
def Action.attempt {α β : Type} (m : Action α) (f : Except Failure α → Action β) : Action β := fun w =>
  f (outcome (m w)) (stateAfter (m w))

theorem Action.runScript_ask (perform : Request → Action Answer) (request : Request)
    (next : Except Failure Answer → Script) :
    runScript perform (.ask request next) = attempt (perform request) fun r => runScript perform (next r) := by
  funext w
  rw [runScript, attempt]
  dsimp only
  cases perform request w <;> rfl

def Action.enterCall (f : FunctionRef) (arguments : List Value) : Action Unit := check fun c h =>
  match (h.function f).tag with
  | some tag => checkBoundary c h tag arguments
  | none => return

/-- What requests are made of, but for what they write to the heap. -/
structure Action.Frame (Q : Catalog → Heap → (α : Type) → Check α → Prop) (P : (α : Type) → Action α → Prop) : Prop
    extends Sequential P where
  checks : ∀ c h, Check.Parts c h (Q c h)
  check : ∀ {α : Type} {f : Catalog → Heap → Check α}, (∀ c h, Q c h α (f c h)) → P α (Action.check f)
  addType : ∀ d, P TypeRef (Action.modifyCatalog fun c => c.add d)
  addSignature : ∀ s, P SignatureRef (Action.modifyCatalog fun c => c.addSignature s)
  defineObject : ∀ t shape, P Unit (Action.defineObject t shape)
  attempt : ∀ {α β : Type} {m : Action α} {f : Except Failure α → Action β}, P α m → (∀ r, P β (f r)) →
    P β (Action.attempt m f)

/-- What is written to the heap keeps all tags, or is a registration. -/
structure Action.Steps (Q : Catalog → Heap → (α : Type) → Check α → Prop) (P : (α : Type) → Action α → Prop) : Prop
    extends Action.Frame Q P where
  modifyHeap : ∀ {α : Type} (f : Heap → α × Heap), (∀ h : Heap, h.SameTags (f h).2) → P α (Action.modifyHeap f)
  registerType : ∀ t f, P FunctionRef (Action.registerType t f)

/-- The same where it does not matter what is written. -/
structure Action.Parts (Q : Catalog → Heap → (α : Type) → Check α → Prop) (P : (α : Type) → Action α → Prop) : Prop
    extends Action.Frame Q P where
  modifyHeap : ∀ {α : Type} (f : Heap → α × Heap), P α (Action.modifyHeap f)

section
variable {Q : Catalog → Heap → (α : Type) → Check α → Prop} {P : (α : Type) → Action α → Prop}

namespace Action.Steps

variable (hP : Action.Steps Q P)
include hP

theorem performWith {call : Caller} (hcall : ∀ f receiver arguments, P Value (call f receiver arguments))
    (r : Request) (hreset : r = .reset → P Unit Action.reset) : P Answer (Action.performWith call r) := by
  have hreturn : ∀ {α : Type} {m : Action α} (k : α → Answer), P α m → P Answer (do return k (← m)) :=
    fun k hm => hP.bind hm fun a => hP.pure (k a)
  cases r with
  | isType v t => exact hreturn _ (hP.check fun c h => (hP.checks c h).isType v t)
  | assertType v t location => exact hreturn _ (hP.check fun c h => (hP.checks c h).assertType v t location)
  | isCompatible source target => exact hreturn _ (hP.check fun c h => (hP.checks c h).resolve _)
  | areSignaturesCompatible source target => exact hreturn _ (hP.check fun c h => (hP.checks c h).resolve _)
  | registerType t f => exact hreturn _ (hP.registerType t f)
  | apply f receiver arguments => exact hreturn _ (hcall f receiver arguments)
  | callValue callee receiver arguments =>
    refine hreturn _ ?_
    unfold callValueWith
    split
    · exact hcall _ receiver arguments
    · exact hP.check fun c h => (hP.checks c h).throw _
  | reset => exact hP.bind (hreset rfl) fun _ => hP.pure _
  | addType d => exact hreturn _ (hP.addType d)
  | addSignature s => exact hreturn _ (hP.addSignature s)
  | defineObject t shape => exact hP.bind (hP.defineObject t shape) fun _ => hP.pure _
  | getProperty v key => exact hreturn _ (hP.check fun c h => (hP.checks c h).pure _)
  | setProperty r key v => exact hP.modifyHeap (fun h => (Answer.done, h.setProperty r key v)) fun h => .of_functions rfl
  | setFunctionProperty f key v =>
    exact hP.modifyHeap (fun h => (Answer.done, h.setFunctionProperty f key v)) fun h => .modifyFunction h f fun _ => rfl
  | setElement r index v => exact hP.modifyHeap (fun h => (Answer.done, h.setElement r index v)) fun h => .of_functions rfl
  | pushElement r v => exact hP.modifyHeap (fun h => (Answer.done, h.pushElement r v)) fun h => .of_functions rfl
  | newFunction name proto body => exact hreturn _ (hP.modifyHeap _ fun h => .newFunction h name proto body)
  | newArray elements => exact hreturn _ (hP.modifyHeap _ fun h => .of_functions rfl)
  | newObject properties proto => exact hreturn _ (hP.modifyHeap _ fun h => .of_functions rfl)
  | newBuffer buffer => exact hreturn _ (hP.modifyHeap _ fun h => .of_functions rfl)
  | newView bytes => exact hreturn _ (hP.modifyHeap _ fun h => .of_functions rfl)

theorem runScript {perform : Request → Action Answer} (hp : ∀ r, P Answer (perform r)) :
    ∀ script, P Value (Action.runScript perform script)
  | .stop (.ok v) => hP.pure v
  | .stop (.error e) => hP.throw e
  | .ask request next => by
    rw [runScript_ask]
    exact hP.attempt (hp request) fun r => runScript hp (next r)

theorem enterCall (f : FunctionRef) (arguments : List Value) : P Unit (Action.enterCall f arguments) := by
  refine hP.check fun c h => ?_
  split
  · exact (hP.checks c h).checkBoundary _ arguments
  · exact (hP.checks c h).pure _

theorem countRun (f : FunctionRef) : P Function (Action.modifyHeap fun h => (h.function f, h.countRun f)) :=
  hP.modifyHeap _ fun h => .modifyFunction h f fun _ => rfl

theorem applyWithin (hreset : P Unit Action.reset) (budget : Nat) (f : FunctionRef) (receiver : Value)
    (arguments : List Value) : P Value (Action.applyWithin budget f receiver arguments) := by
  induction budget generalizing f receiver arguments with
  | zero => exact hP.throw _
  | succ budget ih =>
    refine hP.bind (hP.enterCall f arguments) fun _ => hP.bind (hP.countRun f) fun function => ?_
    exact hP.runScript (fun r => hP.performWith ih r fun _ => hreset) _

theorem performWithin (hreset : P Unit Action.reset) (budget : Nat) (r : Request) :
    P Answer (Action.performWithin budget r) :=
  hP.performWith (hP.applyWithin hreset budget) r fun _ => hreset

end Action.Steps

namespace Action.Parts

variable (hP : Action.Parts Q P)
include hP

theorem registerType (t : TypeRef) (f : FunctionRef) : P FunctionRef (Action.registerType t f) := by
  refine hP.bind (hP.check fun c h => ?_) fun _ => hP.modifyHeap _
  have hQ := hP.checks c h
  exact hQ.bind (hQ.ofExcept _) fun _ => hQ.bind (hQ.identity _) fun i => hQ.emit _

theorem steps : Action.Steps Q P :=
  { hP with
    modifyHeap := fun f _ => hP.modifyHeap f
    registerType := hP.registerType }

theorem performWithin (hreset : P Unit Action.reset) (budget : Nat) (r : Request) :
    P Answer (Action.performWithin budget r) :=
  hP.steps.performWithin hreset budget r

end Action.Parts

end

end TypeContracts
