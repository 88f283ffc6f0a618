import TypeContracts.Engine.Judgment
import TypeContracts.Location
import TypeContracts.Log.Filter
import TypeContracts.Text.Debug

/-!
# Events and the journal

What the library reports about its work. The journal keeps the events that its filter lets pass, in order,
and the violations that were notified.
-/

namespace TypeContracts.Log

inductive Event where
  | judgmentStart (query : Nat) (key : JudgmentKey)
  | judgmentEnd (query : Nat) (kind : JudgmentKind) (result cacheHit : Bool)
  | cycleAssumed (key : JudgmentKey)
  /-- An answer rests on a judgment in progress and is not kept. -/
  | notCached (key : JudgmentKey)
  /-- A value that is being checked against the same type is assumed to conform. -/
  | valueRevisited (type : Identity)
  | violation (location : Location)
  | registering (descriptor : Identity) (function : Option String)
  | callAccepted (arguments : Nat)
  | callRejected (arguments : Nat)
  | documentLoaded (path : String) (descriptors : Nat)
  | compatibilityDecided (judgments entries : Nat)

inductive Field where
  | text (value : String)
  | number (value : Nat)
  | flag (value : Bool)

namespace Event

def judgmentTarget : String := "rtti::judgment_json"

def level : Event → Level
  | violation _ => .warn
  | documentLoaded .. => .info
  | registering .. | callAccepted _ | callRejected _ | compatibilityDecided .. => .debug
  | _ => .trace

def target : Event → String
  | judgmentStart .. | judgmentEnd .. | cycleAssumed _ => judgmentTarget
  | notCached _ | violation _ => "rtti_solver::engine"
  | valueRevisited _ => "rtti_solver::conformance"
  | registering .. | callAccepted _ | callRejected _ => "rtti_solver::intercept"
  | documentLoaded .. | compatibilityDecided .. => "rtti_cli::driver"

def identityField (name : String) (i : Identity) : String × Field := (name, .number i.number.toNat)

def message (text : String) : String × Field := ("message", .text text)

def keyText (key : JudgmentKey) : String :=
  let kind :=
    match key.kind with
    | .type => "Type"
    | .signature => "Signature"
    | .functionTag => "FunctionTag"
  let identity (i : Identity) : String := Debug.call "DescriptorId" (toString i.number.toNat)
  Debug.record "JudgmentKey" [("kind", kind), ("source", identity key.source), ("target", identity key.target)]

/-- The fields of an event, in order. Judgment events carry the name of the run. -/
def fields (run : String) : Event → List (String × Field)
  | judgmentStart query key => [
      ("event", .text "judgment"), ("phase", .text "start"), ("run_id", .text run), ("query_id", .number query),
      ("kind", .text key.kind.name), identityField "source_id" key.source, identityField "target_id" key.target]
  | judgmentEnd query kind result cacheHit => [
      ("event", .text "judgment"), ("phase", .text "end"), ("run_id", .text run), ("query_id", .number query),
      ("kind", .text kind.name), ("result", .flag result), ("cache_hit", .flag cacheHit)]
  | cycleAssumed key => [
      ("event", .text "cycle"), ("run_id", .text run), ("kind", .text key.kind.name),
      identityField "source_id" key.source, identityField "target_id" key.target]
  | notCached key => [
      message "judgment depends on an in-progress pair; not cached", ("key", .text (keyText key))]
  | valueRevisited type => [
      message "value already being checked against type; assuming it holds", identityField "type_id" type]
  | violation location => [message "type violation", ("location", .text location.text)]
  | registering descriptor function => [
      message "registering function descriptor", identityField "descriptor" descriptor,
      ("name", .text (Debug.option (function.map Debug.quoted)))]
  | callAccepted arguments => [message "call accepted", ("arguments", .number arguments)]
  | callRejected arguments => [message "no signature accepts the call", ("arguments", .number arguments)]
  | documentLoaded path descriptors => [
      message "loaded descriptor document", ("path", .text path), ("descriptors", .number descriptors)]
  | compatibilityDecided judgments entries => [
      message "compatibility decided", ("judgments", .number judgments), ("cache_entries", .number entries)]

def hasField (e : Event) (name : String) : Bool := (e.fields "").any fun field => field.1 == name

end Event

structure Journal where
  filter : Filter := .silent
  events : Array Event := #[]
  notices : Array (String × Location) := #[]
  nextQuery : Nat := 1

namespace Journal

instance : Inhabited Journal := ⟨{}⟩

def record (j : Journal) (e : Event) : Journal :=
  if j.filter.admits e.level e.target e.hasField then { j with events := j.events.push e } else j

def tracesJudgments (j : Journal) : Bool := j.filter.expects .trace Event.judgmentTarget

def notify (j : Journal) (message : String) (location : Location) : Journal :=
  { j with notices := j.notices.push (message, location) }

end Journal

end TypeContracts.Log
