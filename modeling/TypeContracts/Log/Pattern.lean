import TypeContracts.Log.Pattern.Reader
import TypeContracts.Log.Pattern.Support

/-!
# Patterns

A field's value may be asked to match a number or a regular expression. No event is ever matched, because only
spans have values to match and nothing here happens inside one, so a pattern is only judged for being well
formed: it can be read, it does not nest too deep, and all that it asks for is supported.
-/

namespace TypeContracts.Log.Pattern

/-! ## Numbers -/

def isExponent : List Char → Bool
  | [] => true
  | e :: rest =>
    let digits :=
      match rest with
      | '+' :: digits | '-' :: digits => digits
      | digits => digits
    (e = 'e' || e = 'E') && !digits.isEmpty && digits.all Char.isDigit

def isDecimal (text : List Char) : Bool :=
  let whole := text.takeWhile Char.isDigit
  match text.dropWhile Char.isDigit with
  | '.' :: rest => !(whole ++ rest.takeWhile Char.isDigit).isEmpty && isExponent (rest.dropWhile Char.isDigit)
  | rest => !whole.isEmpty && isExponent rest

/-- A number with a plus sign, the only numbers that are no regular expressions. -/
def isPositiveNumber : List Char → Bool
  | '+' :: text => isDecimal text || ["inf", "infinity", "nan"].contains (String.ofList (text.map Char.toLower))
  | _ => false

/-! ## Expressions -/

def nestLimit : Nat := 250

def Expression.isUsable (e : Expression) : Bool := e.depth ≤ nestLimit && (e.support {}).isSome

def isWellFormed (text : List Char) : Bool := isPositiveNumber text || (read? text).any Expression.isUsable

end TypeContracts.Log.Pattern
