import Blockwork.Number

/-!
# Order of values

Which of two values comes first (`Value.precedes?`): numbers are in order by value, texts by their
characters, lists by the first items that are not level, and of two lists one of which is the start
of the other the shorter one comes first.  Other values cannot be compared.
-/

namespace Blockwork.Value

/-- Whether two values are equal, or one and the same, so that neither comes first. -/
def levels : Value → Value → Bool
  | .float x, .float y => x.alike y
  | x, y =>
    match x.number?, y.number? with
    | some m, some n => m.same n
    | _, _ => x.alike y

mutual

/-- Whether a value comes before another one; no answer when the two cannot be compared. -/
def precedes? : Value → Value → Option Bool
  | .text s, .text t => some (s < t)
  | .list xs, .list ys => itemsPrecede? xs ys
  | x, y => do return (← x.number?).lt (← y.number?)

/-- `precedes?` along two lists, up to the first items that are not level. -/
def itemsPrecede? : List Value → List Value → Option Bool
  | _, [] => some false
  | [], _ :: _ => some true
  | x :: xs, y :: ys => if x.levels y then itemsPrecede? xs ys else x.precedes? y

end

end Blockwork.Value
