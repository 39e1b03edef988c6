import Blockwork.Error

/-!
# Parts of values

What can be taken out of a value: its parts one after the other (`Value.parts`), the part at a place
(`Value.item`), and what it holds under a name (`Value.under`).
-/

namespace Blockwork.Value

/-- The key that a value is, where nothing else will do. -/
def toKey (v : Value) : Except Error Key :=
  match v.key? with
  | some k => .ok k
  | none => .error (.failure .wrongType)

/-- The text that a value is, where nothing else will do. -/
def toText : Value → Except Error String
  | .text s => .ok s
  | _ => .error (.failure .wrongType)

/-- The items of a list, the characters of a text, or the keys of a dictionary, in order. -/
def parts : Value → Except Error (List Value)
  | .list xs => .ok xs
  | .text s => .ok (s.toList.map fun c => .text (String.singleton c))
  | .dict es => .ok (es.map fun e => ofKey e.1)
  | _ => .error (.failure .wrongType)

/-- The place in a list of some length that a number denotes; negative numbers count from the
end. -/
def place? (length : Nat) (i : Int) : Option Nat :=
  let place := if i < 0 then i + length else i
  if 0 ≤ place ∧ place < length then some place.toNat else none

/-- The item of a list or the character of a text at a place, or the entry of a dictionary under a
number. -/
def item (v : Value) (i : Int) : Except Error Value :=
  match v with
  | .dict es =>
    match Entries.get? es (.int i) with
    | some x => .ok x
    | none => .error (.failure .missingKey)
  | .list _ | .text _ => do
    let xs ← v.parts
    match (place? xs.length i).bind (xs[·]?) with
    | some x => return x
    | none => throw (.failure .outOfRange)
  | _ => .error (.failure .wrongType)

/-- What a value holds under a name: the entry of a dictionary.  Lists and texts hold no names, so
that one which is found in them is of no use, unless it is a place in a list. -/
def under (v name : Value) : Except Error (Option Value) :=
  match v with
  | .dict es => do return Entries.get? es (← name.toKey)
  | .list xs =>
    if xs.any (·.alike name) then
      match name with
      | .int i => some <$> v.item i
      | .bool b => some <$> v.item b.toNat
      | _ => .error (.failure .wrongType)
    else .ok none
  | .text s =>
    match name with
    | .text t => if s.contains t then .error (.failure .wrongType) else .ok none
    | _ => .error (.failure .wrongType)
  | _ => .error (.failure .wrongType)

end Blockwork.Value
