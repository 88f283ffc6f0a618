import TypeContracts.Double.Basic
import TypeContracts.Members

/-!
# Documents of descriptors

A document is a flat table of entries that refer to each other by index, and the index of its root.
-/

namespace TypeContracts.Document

abbrev EntryIndex := UInt32

structure PropertyEntry where
  type : EntryIndex
  optional : Bool
deriving DecidableEq, Repr

/-- A signature. Without a number of mandatory arguments all declared ones are mandatory. -/
structure SignatureEntry where
  args : List EntryIndex
  mandatoryArgs : Option UInt64
  varargs : Option EntryIndex
  result : EntryIndex
deriving DecidableEq, Repr

structure ObjectEntry where
  name : Option String
  properties : Members PropertyEntry
  callSignatures : List SignatureEntry
  constructSignatures : List SignatureEntry
  numericIndexType : Option EntryIndex
  stringIndexType : Option EntryIndex

inductive Entry where
  | any
  | never
  | void
  | null
  | boolean
  | numeric
  | string
  | booleanLiteral (value : Bool)
  | numericLiteral (value : Double)
  | stringLiteral (value : String)
  | union (types : List EntryIndex) (name : Option String)
  | intersection (types : List EntryIndex) (name : Option String)
  | typeParameter (name : Option String)
  | objectType (entry : ObjectEntry)

end TypeContracts.Document

namespace TypeContracts

structure Document where
  types : Array Document.Entry
  root : Document.EntryIndex

end TypeContracts
