import Blockwork.Number.Decimal

/-!
# Templates

The message of a block: a text with numbered slots.  A slot is a percent sign followed by digits of
any script, as many as there are; a percent sign that no digit follows stands for itself.  A slot
with too many digits has no number.
-/

namespace Blockwork

/-- A piece of a template. -/
inductive Template.Part where
  | char (c : Char)
  | slot (digits : List Char)
  deriving DecidableEq, Repr

namespace Template

/-- The number that digits of any script denote. -/
def Part.number (digits : List Char) : Nat :=
  digits.foldl (fun n c => 10 * n + (Text.digit? c).getD 0) 0

/-- The number that the digits of a slot denote, unless they are too many. -/
def Part.number? (digits : List Char) : Option Nat :=
  if Decimal.digitLimit < digits.length then none else some (number digits)

/-- What a percent sign and the digits after it amount to. -/
def Part.close : List Char → Part
  | [] => .char '%'
  | ds => .slot ds

/-- The pieces of a template; `pending` holds the digits since a percent sign that is still open. -/
def split : Option (List Char) → List Char → List Part
  | none, [] => []
  | none, c :: cs => if c = '%' then split (some []) cs else .char c :: split none cs
  | some ds, [] => [Part.close ds]
  | some ds, c :: cs =>
    if (Text.digit? c).isSome then split (some (ds ++ [c])) cs
    else if c = '%' then Part.close ds :: split (some []) cs
    else Part.close ds :: .char c :: split none cs

/-- The pieces of a message. -/
def parts (message : String) : List Part := split none message.toList

/-- The digits of the slots of a message, from left to right. -/
def slotDigits (message : String) : List (List Char) :=
  (parts message).filterMap fun
    | .slot ds => some ds
    | .char _ => none

/-- The numbers of the slots of a message, from left to right, if each of them has one. -/
def slots? (message : String) : Option (List Nat) := (slotDigits message).mapM Part.number?

end Template

end Blockwork
