import TypeContracts.Json.Printer
import TypeContracts.Log.Event

/-!
# Log lines

An event is one line: a JSON object, or its level, target, message and other fields in plain words.
-/

namespace TypeContracts.Log

def Field.toJson : Field → Json
  | text value => .string value
  | number value => .ofNat value
  | flag value => .bool value

def Field.plain : Field → String
  | text value => value
  | number value => toString value
  | flag value => toString value

namespace Event

def jsonLine (run : String) (e : Event) : String :=
  Json.render (.object [
    ("level", .string e.level.name),
    ("fields", .object ((e.fields run).map fun (name, field) => (name, field.toJson))),
    ("target", .string e.target)])

/-- The message stands alone, the other fields have their names. -/
def plainLine (run : String) (e : Event) : String :=
  let field : String × Field → String
    | ("message", value) => value.plain
    | (name, value) => name ++ "=" ++ value.plain
  " ".intercalate (e.level.name :: (e.target ++ ":") :: (e.fields run).map field)

def line (format : Format) (run : String) (e : Event) : String :=
  match format with
  | .json => e.jsonLine run
  | .text | .tree => e.plainLine run

end Event

end TypeContracts.Log
