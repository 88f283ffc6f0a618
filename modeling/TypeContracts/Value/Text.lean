import Std.Data.TreeSet
import TypeContracts.Descriptor.Text
import TypeContracts.Text.Debug
import TypeContracts.Value.Heap

/-!
# The text of a value

Every reference value is written out at most once by a formatter; where it occurs again, inside itself or
elsewhere, it is a marker. Long arrays are cut.
-/

namespace TypeContracts

/-- Stands for a reference value that has been written out before. -/
def circularReferenceMarker : String := "[circular reference]"

def maxPreviewElements : Nat := 10

abbrev Seen := Std.TreeSet Nat

/-- The preview of a sequence, which ends in dots when it is not all of it. -/
def previewText (preview : List String) (total : Nat) : String :=
  ", ".intercalate (if preview.length < total then preview ++ ["..."] else preview)

def markSeen (v : Value) : StateM Seen Bool := fun seen =>
  match v.identity? with
  | none => (false, seen)
  | some identity => if seen.contains identity then (true, seen) else (false, seen.insert identity)

namespace Heap

def functionText (h : Heap) (c : Catalog) (r : FunctionRef) : String :=
  match (h.function r).tag with
  | some tag => c.typeText tag
  | none => "Function"

def bufferText (b : Buffer) : String :=
  let preview := (b.elements.toList.take maxPreviewElements).map Double.text
  b.kind.constructorName ++ " [" ++ previewText preview b.elements.size ++ "]"

/-- The entries followed by those of an object under names that are not listed yet. -/
def appendUnlisted (entries : List (String × Value)) (object : Object) : List (String × Value) :=
  object.properties.toList.foldl (fun entries entry =>
    if entries.any fun listed => listed.1 == entry.1 then entries else entries ++ [entry]) entries

/-- The entries that the text of an object shows: its own, and then those of its prototypes that it does not have. -/
def listedEntries (h : Heap) (r : ObjectRef) : List (String × Value) :=
  (h.chain (h.object r).proto).foldl appendUnlisted (h.object r).properties.toList

def membersText (level : Nat) (members : List (String × String)) : String :=
  if members.isEmpty then "\x7b\x7d"
  else braced level (members.map fun (key, text) => key ++ ": " ++ text ++ ",")

def valueTextWithin (h : Heap) (c : Catalog) : Nat → Nat → Value → StateM Seen String
  | 0, _, _ => return circularReferenceMarker
  | budget + 1, level, v => do
    if ← markSeen v then return circularReferenceMarker
    match v with
    | .undefined => return "undefined"
    | .null => return "null"
    | .boolean b => return (if b then "true" else "false")
    | .number x => return x.text
    | .string s => return "'" ++ s ++ "'"
    | .function r => return h.functionText c r
    | .array r =>
      let elements := h.elements r
      let preview ← (elements.toList.take maxPreviewElements).mapM (h.valueTextWithin c budget level)
      return "[" ++ previewText preview elements.size ++ "]"
    | .buffer r => return bufferText (h.buffer r)
    | .view r => return "DataView \x7b byteLength: " ++ toString (h.bytes r).length ++ " \x7d"
    | .object r =>
      let texts ← (h.listedEntries r).mapM fun (key, value) =>
        return (key, ← h.valueTextWithin c budget (level + 1) value)
      return membersText level texts

/-- More than the number of reference values, so no text nests deeper. -/
def textBudget (h : Heap) : Nat :=
  h.arrays.size + h.objects.size + h.functions.size + h.buffers.size + h.views.size + 2

def formatValue (h : Heap) (c : Catalog) (v : Value) : StateM Seen String :=
  h.valueTextWithin c h.textBudget 0 v

def valueText (h : Heap) (c : Catalog) (v : Value) : String := ((h.formatValue c v).run ∅).1

def valueTexts (h : Heap) (c : Catalog) (vs : List Value) : List String :=
  ((vs.mapM (h.formatValue c)).run ∅).1

def listText (h : Heap) (c : Catalog) (vs : List Value) : String := ", ".intercalate (h.valueTexts c vs)

/-! ## Debug text -/

/-- The debug text of a value, which shows nothing of what it refers to but its extent. -/
def debugText (h : Heap) : Value → String
  | .undefined => "Undefined"
  | .null => "Null"
  | .boolean b => Debug.call "Boolean" (Debug.bool b)
  | .number x => Debug.call "Number" x.debugText
  | .string s => Debug.call "String" (Debug.quoted s)
  | .array r => Debug.call "Array" ("JsArray(len = " ++ toString (h.elements r).size ++ ")")
  | .object r => Debug.call "Object" <| Debug.record "JsObject" [
      ("keys", Debug.list ((h.object r).properties.names.map Debug.quoted)),
      ("has_prototype", Debug.bool (h.object r).proto.isSome)]
  | .function r => Debug.call "Function" <| Debug.record "FunctionObject" [
      ("name", Debug.option ((h.function r).name.map Debug.quoted)),
      ("tagged", Debug.bool (h.function r).tag.isSome)]
  | .buffer r => Debug.call "TypedArray" <| Debug.record "TypedArray" [
      ("kind", (h.buffer r).kind.name),
      ("elements", Debug.list ((h.buffer r).elements.toList.map Double.debugText))]
  | .view r => Debug.call "DataView" <| Debug.record "DataView" [
      ("bytes", Debug.list ((h.bytes r).map fun b => toString b.toNat))]

end Heap

end TypeContracts
