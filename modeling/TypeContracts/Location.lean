import TypeContracts.Json.Record
import TypeContracts.Json.Printer

/-!
# Source locations

Where in the typed source an assertion stands. Lines and columns are only ever printed.
-/

namespace TypeContracts

structure Location where
  file : String
  line : UInt32
  column : UInt32
deriving DecidableEq, Repr

namespace Location

def unknown : Location := ⟨"", 0, 0⟩

instance : Inhabited Location := ⟨unknown⟩

def isUnknown (loc : Location) : Bool := loc.file.isEmpty && loc.line == 0 && loc.column == 0

def text (loc : Location) : String :=
  loc.file ++ ":" ++ toString loc.line.toNat ++ ":" ++ toString loc.column.toNat

def toJson (loc : Location) : Json :=
  .object [("file", .string loc.file), ("line", .ofNat loc.line.toNat), ("column", .ofNat loc.column.toNat)]

def fieldNames : List String := ["file", "line", "column"]

def ofJson? (x : Json) : Option Location := do
  let fields ← x.fields? fieldNames
  return {
    file := ← Json.required fields "file" Json.toString?
    line := ← Json.required fields "line" Json.toUInt32?
    column := ← Json.required fields "column" Json.toUInt32? }

def parse? (text : String) : Option Location := (Json.parseRecord? fieldNames Json.maxDepth text).bind ofJson?

end Location

end TypeContracts
