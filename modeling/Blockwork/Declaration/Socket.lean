import Blockwork.Colour.Hsv
import Blockwork.Value.Parts

/-!
# Sockets

The arguments of a block: sockets that other blocks are plugged into, and fields that hold a number,
a text or a colour.  A field brings what is written into it into its own domain (`Socket.coerce`).
-/

namespace Blockwork

/-- What an argument is. -/
inductive Socket.Kind where
  | input
  | number
  | text
  | colour
  deriving DecidableEq, Repr

/-- One argument of a block type.  Name and bounds are kept as declared; `null` stands for no
bound. -/
structure Socket where
  name : Value
  kind : Socket.Kind
  check : Check := none
  default : Value := .null
  min : Value := .null
  max : Value := .null
  precision : Value := .null
  deriving DecidableEq

namespace Socket

/-- The name of a kind in a declaration. -/
def Kind.name : Kind → String
  | .input => "input_value"
  | .number => "field_number"
  | .text => "field_input"
  | .colour => "field_colour"

/-- The kind with a name. -/
def Kind.ofName? : Value → Option Kind
  | .text "input_value" => some .input
  | .text "field_number" => some .number
  | .text "field_input" => some .text
  | .text "field_colour" => some .colour
  | _ => none

/-- Whether an argument holds a value itself. -/
def isField (s : Socket) : Bool := s.kind != .input

/-! ### Coercion -/

/-- The number written into a number field. -/
def readNumber (field v : Value) : Except Error Binary64 :=
  match v.toFloat with
  | .ok x =>
    if x.isFinite then .ok x else .error (.violation (.expectsFinite field v))
  | .error (.failure .wrongType) | .error (.failure .badValue) =>
    .error (.violation (.expectsNumber field v))
  | .error e => .error e

/-- The multiple of `precision` nearest to `x`, where a half is rounded up; any number when no
precision is declared. -/
def snap (precision : Value) (x : Binary64) : Except Error Number := do
  if precision.isTruthy then
    let step ← precision.toNumber
    let quotient := x.div (← step.toFloat)
    let half := Decimal.value false 5 (-1)
    Number.mul (.int (← Number.floor (.float (quotient.add half)))) step
  else return .float x

/-- A number brought up to a lower bound, if one is declared. -/
def raiseTo (bound : Value) (n : Number) : Except Error Number :=
  if bound = .null then .ok n else do return n.max (← bound.toNumber)

/-- A number brought down to an upper bound, if one is declared. -/
def lowerTo (bound : Value) (n : Number) : Except Error Number :=
  if bound = .null then .ok n else do return n.min (← bound.toNumber)

/-- A number that is whole, as a whole number. -/
def settle (n : Number) : Except Error Value := do
  let i ← n.truncate
  return if n.same (.int i) then .int i else n.toValue

/-- A number rounded to the precision, then brought between the bounds. -/
def coerceNumber (s : Socket) (v : Value) : Except Error Value := do
  let x ← readNumber s.name v
  let n ← snap s.precision x
  let n ← raiseTo s.min n
  let n ← lowerTo s.max n
  settle n

/-- A value brought into the domain of a field: a number between the bounds, a colour in written
form, a text.  A socket for blocks takes any value. -/
def coerce (s : Socket) (v : Value) : Except Error Value :=
  match s.kind with
  | .number => s.coerceNumber v
  | .colour =>
    match Rgb.ofValue? v with
    | some c => .ok (.text c.hex)
    | none => .error (.violation (.expectsColour s.name v))
  | .text => .ok (.text (if v = .null then "" else v.display))
  | .input => .ok v

/-! ### Declared form -/

/-- A check in a declaration: nothing, one name, or several names. -/
def checkOfValue : Value → Except Error Check
  | .null => .ok none
  | .text s => .ok (some [.text s])
  | v => some <$> v.parts

/-- The declared form of a check that is not open: of one name, just that name. -/
def checkToValue : List Value → Value
  | [v] => v
  | xs => .list xs

/-- The key under which the default of a field is declared. -/
def Kind.defaultKey? : Kind → Option String
  | .input => none
  | .number => some "value"
  | .text => some "text"
  | .colour => some "colour"

/-- The default in a declaration. -/
def defaultOf (kind : Kind) (es : List (Key × Value)) : Except Error Value :=
  match kind with
  | .input => .ok .null
  | .number => .ok ((Entries.get? es "value").getD (.int 0))
  | .text => .ok ((Entries.get? es "text").getD (.text ""))
  | .colour => do
    return .text (← Rgb.ofValue ((Entries.get? es "colour").getD (.text "#ff0000"))).hex

/-- The argument that a declaration describes. -/
def ofValue : Value → Except Error Socket
  | .dict es => do
    let type := (Entries.get? es "type").getD .null
    let some kind := Kind.ofName? type | throw (.violation (.unsupportedArgument type))
    let default ← defaultOf kind es
    let some name := Entries.get? es "name" | throw (.failure .missingKey)
    let check ← checkOfValue ((Entries.get? es "check").getD .null)
    return { name, kind, check, default
             min := (Entries.get? es "min").getD .null
             max := (Entries.get? es "max").getD .null
             precision := (Entries.get? es "precision").getD .null }
  | _ => .error (.failure .wrongType)

/-- An entry that is written only when there is something to write. -/
def optional (key : String) (v : Value) : List (String × Value) :=
  if v = .null then [] else [(key, v)]

/-- The declared form of an argument. -/
def toValue (s : Socket) : Value :=
  .record (
    [("type", .text s.kind.name), ("name", s.name)] ++
    (match s.check with
      | none => []
      | some names => [("check", checkToValue names)]) ++
    (match s.kind.defaultKey? with
      | none => []
      | some key => [(key, s.default)]) ++
    optional "min" s.min ++ optional "max" s.max ++ optional "precision" s.precision)

end Socket

end Blockwork
