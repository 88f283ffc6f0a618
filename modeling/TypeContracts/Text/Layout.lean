/-!
# Layout of multi-line text
-/

namespace TypeContracts

def indentation (level : Nat) : String := String.ofList (List.replicate (2 * level) ' ')

def braced (level : Nat) (lines : List String) : String :=
  let pad := indentation (level + 1)
  "\x7b\n" ++ String.join (lines.map fun line => pad ++ line ++ "\n") ++ indentation level ++ "\x7d"

end TypeContracts
