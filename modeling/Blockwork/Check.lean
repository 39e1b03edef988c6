import Blockwork.Value

/-!
# Checks

What a socket accepts and an output offers: anything, or one of a list of type names.  Type names
are texts as a rule; a list that holds something that cannot be looked up can be declared, but not
be compared.
-/

namespace Blockwork

/-- A list of type names; `none` stands for any type. -/
abbrev Check := Option (List Value)

namespace Check

/-- Whether two checks fit: one of them is open, or they have a name in common.  There is no answer
when one of the names cannot be looked up. -/
def compatible? : Check → Check → Option Bool
  | some xs, some ys => do
    let names ← xs.mapM Value.key?
    let others ← ys.mapM Value.key?
    return names.any others.contains
  | _, _ => some true

/-- A check in a message: the names in parentheses, one name with a comma after it. -/
def display : Check → String
  | none => "None"
  | some [x] => "(" ++ x.quoted ++ ",)"
  | some xs => "(" ++ ", ".intercalate (xs.map Value.quoted) ++ ")"

end Check

end Blockwork
