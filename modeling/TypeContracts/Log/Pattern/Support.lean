import TypeContracts.Log.Pattern.Basic

/-!
# What can be matched

Expressions are matched without tables of characters, and only against text. So there are no properties of
characters, and while characters beyond ASCII count there are no kinds of characters, no word boundaries, and
nothing that ignores case. While they do not count, nothing may match a byte that is no character by itself.
-/

namespace TypeContracts.Log.Pattern

structure Mode where
  ignoresCase : Bool := false
  unicode : Bool := true
deriving DecidableEq, Repr

def Mode.change (m : Mode) (changes : Flags) : Mode where
  ignoresCase := (changes.lookup 'i').getD m.ignoresCase
  unicode := (changes.lookup 'u').getD m.unicode

def Literal.isAscii (x : Literal) : Bool := x.char.toNat < 0x80

mutual

def ClassItem.isSupported (m : Mode) : ClassItem → Bool
  | .literal x => if m.unicode then !m.ignoresCase else x.isAscii
  | .range first last => if m.unicode then !m.ignoresCase else first.isAscii && last.isAscii
  | .named negated => if m.unicode then !m.ignoresCase else !negated
  | .kind negated => !m.unicode && !negated
  | .property => false
  | .nested negated set => (m.unicode || !negated) && set.isSupported m

def ClassSet.isSupported (m : Mode) : ClassSet → Bool
  | .union items => ClassSet.areSupported m items
  | .operation left right => left.isSupported m && ClassSet.areSupported m right

def ClassSet.areSupported (m : Mode) : List ClassItem → Bool
  | [] => true
  | item :: items => item.isSupported m && ClassSet.areSupported m items

end

mutual

def Expression.support (m : Mode) : Expression → Option Mode
  | .literal x => if if m.unicode then !m.ignoresCase else !x.isByte || x.isAscii then some m else none
  | .dot => if m.unicode then some m else none
  | .anchor => some m
  | .wordBoundary => if m.unicode then none else some m
  | .kind negated => if !m.unicode && !negated then some m else none
  | .property => none
  | .charClass negated set => if (m.unicode || !negated) && set.isSupported m then some m else none
  | .flags changes => some (m.change changes)
  | .repetition body => (body.support m).map fun _ => m
  | .group changes body => (body.support (m.change changes)).map fun _ => m
  | .concatenation parts => Expression.supportList m parts
  | .alternation branches => Expression.supportList m branches

def Expression.supportList (m : Mode) : List Expression → Option Mode
  | [] => some m
  | part :: parts =>
    match part.support m with
    | some m => Expression.supportList m parts
    | none => none

end

end TypeContracts.Log.Pattern
