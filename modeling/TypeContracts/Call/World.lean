import TypeContracts.Call.Boundary

/-!
# Running programs

A world is all that a running program can see: descriptors, values, and an engine with its context. Native
code acts on it by requests. Calls go through the boundary check, and the body of a function runs only when
its arguments have been accepted.
-/

namespace TypeContracts

structure World where
  catalog : Catalog := {}
  heap : Heap := {}
  context : Context

/-- Something done to a world. It may fail, and what was done until then is kept. -/
abbrev Action := EStateM Failure World

def World.create (options : Options) (filter : Log.Filter) : World where
  context := { engine := .create options, identities := {}, journal := { filter } }

namespace Action

def check {α : Type} (f : Catalog → Heap → Check α) : Action α := fun w =>
  match f w.catalog w.heap w.context with
  | .ok a context => .ok a { w with context }
  | .error e context => .error e { w with context }

def modifyCatalog {α : Type} (f : Catalog → α × Catalog) : Action α := modifyGet fun w =>
  let (a, catalog) := f w.catalog
  (a, { w with catalog })

def modifyHeap {α : Type} (f : Heap → α × Heap) : Action α := modifyGet fun w =>
  let (a, heap) := f w.heap
  (a, { w with heap })

/-! ## Questions -/

def isType (v : Value) (t : TypeRef) : Action Bool := check fun c h => Conformance.isType c h v t

def assertType (v : Value) (t : TypeRef) (location : Location) : Action Value :=
  check fun c h => TypeContracts.assertType c h v t location

def isCompatible (source target : TypeRef) : Action Bool :=
  check fun c _ => Compatibility.isCompatible c source target

def areSignaturesCompatible (source target : SignatureRef) : Action Bool :=
  check fun c _ => Compatibility.areSignaturesCompatible c source target

/-! ## Functions -/

/-- Attaches an object type to a function, whose calls are checked against it from now on. -/
def registerType (t : TypeRef) (f : FunctionRef) : Action FunctionRef := do
  check fun c h => do
    let _ ← Check.ofExcept (c.shape t)
    let identity ← Check.identity (.type t)
    Check.emit (.registering identity (h.function f).name)
  modifyHeap fun h => (f, h.setTag f t)

def reset : Action Unit := check fun _ _ => Check.modifyEngine Engine.reset

def defineObject (t : TypeRef) (shape : Shape) : Action Unit := fun w =>
  match w.catalog.defineObject t shape with
  | .ok catalog => .ok () { w with catalog }
  | .error e => .error e w

abbrev Caller := FunctionRef → Value → List Value → Action Value

def callValueWith (call : Caller) (callee receiver : Value) (arguments : List Value) : Action Value :=
  match callee with
  | .function f => call f receiver arguments
  | other => check fun c h => throw (.notCallable (h.valueText c other))

def performWith (call : Caller) : Request → Action Answer
  | .isType v t => return .verdict (← isType v t)
  | .assertType v t location => return .value (← assertType v t location)
  | .isCompatible source target => return .verdict (← isCompatible source target)
  | .areSignaturesCompatible source target => return .verdict (← areSignaturesCompatible source target)
  | .registerType t f => return .value (.function (← registerType t f))
  | .apply f receiver arguments => return .value (← call f receiver arguments)
  | .callValue callee receiver arguments => return .value (← callValueWith call callee receiver arguments)
  | .reset => do reset; return .done
  | .addType d => return .type (← modifyCatalog fun c => c.add d)
  | .addSignature s => return .signature (← modifyCatalog fun c => c.addSignature s)
  | .defineObject t shape => do defineObject t shape; return .done
  | .newArray elements => return .value (.array (← modifyHeap fun h => h.newArray elements))
  | .newObject properties proto =>
    return .value (.object (← modifyHeap fun h => h.newObject (.ofList properties) proto))
  | .newFunction name proto body =>
    return .value (.function (← modifyHeap fun h => h.newFunction name proto body))
  | .newBuffer buffer => return .value (.buffer (← modifyHeap fun h => h.newBuffer buffer))
  | .newView bytes => return .value (.view (← modifyHeap fun h => h.newView bytes))
  | .getProperty v key => return .value (← check fun _ h => return h.get v key)
  | .setProperty r key v => modifyHeap fun h => (.done, h.setProperty r key v)
  | .setFunctionProperty f key v => modifyHeap fun h => (.done, h.setFunctionProperty f key v)
  | .setElement r index v => modifyHeap fun h => (.done, h.setElement r index v)
  | .pushElement r v => modifyHeap fun h => (.done, h.pushElement r v)

def runScript (perform : Request → Action Answer) : Script → Action Value
  | .stop result => fun w =>
    match result with
    | .ok v => .ok v w
    | .error e => .error e w
  | .ask request next => fun w =>
    match perform request w with
    | .ok answer w => runScript perform (next (.ok answer)) w
    | .error e w => runScript perform (next (.error e)) w

def runBody (perform : Request → Action Answer) (f : FunctionRef) (receiver : Value)
    (arguments : List Value) : Action Value := do
  let function ← modifyHeap fun h => (h.function f, h.countRun f)
  runScript perform (function.body ⟨receiver, arguments, function.runs + 1⟩)

/-- Calls a function: the arguments are checked against its tag if it has one, and then its body runs. Calls
nest at most `budget` deep. -/
def applyWithin : Nat → Caller
  | 0, _, _, _ => throw (.recursionLimit .callingFunctions)
  | budget + 1, f, receiver, arguments => do
    check fun c h =>
      match (h.function f).tag with
      | some tag => checkBoundary c h tag arguments
      | none => return
    runBody (performWith (applyWithin budget)) f receiver arguments

/-- How deep calls may nest in a program. What is proved of calls holds for every budget. -/
def maxCallDepth : Nat := 10000

def apply : Caller := applyWithin maxCallDepth

def callValue (callee receiver : Value) (arguments : List Value) : Action Value :=
  callValueWith apply callee receiver arguments

/-- Answers a request, with calls that nest at most `budget` deep. -/
def performWithin (budget : Nat) : Request → Action Answer := performWith (applyWithin budget)

def perform : Request → Action Answer := performWithin maxCallDepth

end Action

end TypeContracts
