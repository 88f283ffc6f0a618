/-!
# Regular expressions

Their syntax as it is written, so that what is said about an expression can be said about its text: which parts
nest how deep, which flags are in force where, and which characters were given by a code.
-/

namespace TypeContracts.Log.Pattern

/-- A character, and whether it was written as a code of two digits, which may stand for a byte. -/
structure Literal where
  char : Char
  isByte : Bool := false
deriving DecidableEq, Repr

mutual

inductive ClassItem where
  | literal (x : Literal)
  | range (first last : Literal)
  | named (negated : Bool)
  | kind (negated : Bool)
  | property
  | nested (negated : Bool) (set : ClassSet)

/-- A set of characters: a union, or an operation on a set and a union. -/
inductive ClassSet where
  | union (items : List ClassItem)
  | operation (left : ClassSet) (right : List ClassItem)

end

abbrev Flags := List (Char × Bool)

inductive Expression where
  | literal (x : Literal)
  | dot
  | anchor
  | wordBoundary
  | kind (negated : Bool)
  | property
  | charClass (negated : Bool) (set : ClassSet)
  | flags (changes : Flags)
  | repetition (body : Expression)
  | group (changes : Flags) (body : Expression)
  | concatenation (parts : List Expression)
  | alternation (branches : List Expression)

/-! ## Nesting -/

/-- The level that a list of parts adds: one part stands for itself. -/
def levelOfList {α : Type} : List α → Nat
  | [] | [_] => 0
  | _ => 1

mutual

def ClassItem.depth : ClassItem → Nat
  | .nested _ set => 1 + set.depth
  | .literal _ | .range .. | .named _ | .kind _ | .property => 0

def ClassSet.depth : ClassSet → Nat
  | .union items => levelOfList items + ClassSet.maxDepth items
  | .operation left right => 1 + max left.depth (levelOfList right + ClassSet.maxDepth right)

def ClassSet.maxDepth : List ClassItem → Nat
  | [] => 0
  | item :: items => max item.depth (ClassSet.maxDepth items)

end

mutual

def Expression.depth : Expression → Nat
  | .charClass _ set => 1 + set.depth
  | .repetition body => 1 + body.depth
  | .group _ body => 1 + body.depth
  | .concatenation parts => levelOfList parts + Expression.maxDepth parts
  | .alternation branches => levelOfList branches + Expression.maxDepth branches
  | .literal _ | .dot | .anchor | .wordBoundary | .kind _ | .property | .flags _ => 0

def Expression.maxDepth : List Expression → Nat
  | [] => 0
  | part :: parts => max part.depth (Expression.maxDepth parts)

end

end TypeContracts.Log.Pattern
