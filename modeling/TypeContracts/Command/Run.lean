import TypeContracts.Call.World
import TypeContracts.Command.Arguments
import TypeContracts.Document.Decode
import TypeContracts.Document.Reader

/-!
# Running a subcommand

A run reads its files, asks one question, and ends with a verdict or a failure. A violation is a verdict.
-/

namespace TypeContracts.Command

inductive ReadError where
  | notFound
  | isADirectory
  | notADirectory
  /-- A name is too long. -/
  | invalidFilename
  /-- The bytes are no text. -/
  | invalidData
  | permissionDenied
  | other
deriving DecidableEq, Repr

def ReadError.name : ReadError → String
  | notFound => "NotFound"
  | isADirectory => "IsADirectory"
  | notADirectory => "NotADirectory"
  | invalidFilename => "InvalidFilename"
  | invalidData => "InvalidData"
  | permissionDenied => "PermissionDenied"
  | other => "Other"

abbrev Files := String → Except ReadError String

inductive Cause where
  | unreadable (error : ReadError)
  | notJson
  | failure (error : Failure)
deriving DecidableEq, Repr

structure RunFailure where
  doing : String
  cause : Option Cause
deriving DecidableEq, Repr

inductive Verdict where
  | conforms
  | violation (text : String)
  | compatible
  | incompatible
  | printed (text : String)
deriving DecidableEq, Repr

namespace Verdict

def name : Verdict → String
  | conforms => "Conforms"
  | violation _ => "Violation"
  | compatible => "Compatible"
  | incompatible => "Incompatible"
  | printed _ => "Printed"

/-- Only a violation makes the program fail. -/
def isSuccess : Verdict → Bool
  | violation _ => false
  | _ => true

def exitStatus (v : Verdict) : Nat := if v.isSuccess then 0 else 1

end Verdict

abbrev Run := EStateM RunFailure World

namespace Run

def fail {α : Type} (doing : String) (cause : Cause) : Run α := throw ⟨doing, some cause⟩

def read (files : Files) (what path : String) : Run String :=
  match files path with
  | .ok text => return text
  | .error e => fail ("failed to read " ++ what ++ " " ++ path) (.unreadable e)

def act {α : Type} (action : Action α) : Run (Except Failure α) := fun w =>
  match action w with
  | .ok a w => .ok (.ok a) w
  | .error e w => .ok (.error e) w

def ofExcept {α : Type} (doing : String) : Except Failure α → Run α
  | .ok a => return a
  | .error e => fail doing (.failure e)

def emit (e : Log.Event) : Run Unit := modify fun w =>
  { w with context := { w.context with journal := w.context.journal.record e } }

def decodeDocument (path : String) (d : Document) : Run TypeTable := do
  let (table, catalog) ← ofExcept ("failed to decode descriptors " ++ path) (d.decode (← get).catalog)
  modify fun w => { w with catalog }
  return table

def loadTable (files : Files) (path : String) : Run TypeTable := do
  let text ← read files "descriptors" path
  let document ← ofExcept ("failed to parse descriptors " ++ path) (Document.parse text)
  let table ← decodeDocument path document
  emit (.documentLoaded path table.size)
  return table

def select (table : TypeTable) (index : UInt32) : Run TypeRef :=
  match table.get? index.toNat with
  | some t => return t
  | none =>
    throw ⟨"descriptor " ++ toString index.toNat ++ " is out of range for a document of "
      ++ toString table.size ++ " descriptors", none⟩

def selectOrRoot (table : TypeTable) : Option UInt32 → Run TypeRef
  | some index => select table index
  | none => return table.root

def loadValue (files : Files) (path : String) : Run Value := do
  let text ← read files "value" path
  match Json.parse? Json.maxDepth text with
  | none => fail ("failed to parse value " ++ path) .notJson
  | some json => modifyGet fun w =>
    let (v, heap) := w.heap.ofJson json
    (v, { w with heap })

def check (files : Files) (a : CheckArguments) : Run Verdict := do
  let table ← loadTable files a.types
  let t ← selectOrRoot table a.root
  let v ← loadValue files a.value
  match ← act (Action.assertType v t a.location) with
  | .ok _ => return .conforms
  | .error (.violation violation) => return .violation violation.text
  | .error e => fail "value check failed" (.failure e)

def compat (files : Files) (types : String) (source target : UInt32) : Run Verdict := do
  let table ← loadTable files types
  let s ← select table source
  let t ← select table target
  let compatible ← ofExcept "compatibility check failed" (← act (Action.isCompatible s t))
  let engine := (← get).context.engine
  emit (.compatibilityDecided engine.uncachedJudgments engine.cache.size)
  return if compatible then .compatible else .incompatible

def print (files : Files) (types : String) (root : Option UInt32) : Run Verdict := do
  let table ← loadTable files types
  let t ← selectOrRoot table root
  return .printed ((← get).catalog.typeText t)

def subcommand (files : Files) : Subcommand → Run Verdict
  | .check a => check files a
  | .compat types source target => compat files types source target
  | .print types root => print files types root

end Run

def run (files : Files) (filter : Log.Filter) (a : Arguments) : Except RunFailure Verdict × Log.Journal :=
  match Run.subcommand files a.command (.create a.options filter) with
  | .ok verdict w => (.ok verdict, w.context.journal)
  | .error e w => (.error e, w.context.journal)

/-- The filter that the environment asks for, if it can be read. The program's own variable wins over the general
one, and without either nothing is logged. -/
def filterOf (own general : Option String) : Option Log.Filter :=
  match own <|> general with
  | some text => Log.Filter.parse? text
  | none => some .silent

/-- The exit status of a program that cannot begin, for want of a filter. -/
def abortStatus : Nat := 101

end TypeContracts.Command
