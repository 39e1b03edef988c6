import Blockwork.Declaration.Socket
import Blockwork.Declaration.Template

/-!
# Declarations

A declaration says what the blocks of one type are: their message and arguments, whether they can
follow and be followed by others, whether they give a value, and their colour.  Declarations are
read from and written to the form in which an editor takes them; there the presence of a key says
that a connection exists, and its value what it accepts.
-/

namespace Blockwork

/-- The schema of one block type. -/
structure Declaration where
  type : Value
  message : String := ""
  sockets : List Socket := []
  previous : Bool := false
  next : Bool := false
  output : Check := none
  isValue : Bool := false
  colour : Rgb := ⟨0, 0, 0⟩
  hue : Option Binary64 := none
  tooltip : Value := .text ""
  help : Value := .text ""
  deriving DecidableEq

namespace Declaration

/-- What the type is known by; nothing for a type that cannot be looked up. -/
def typeName? (d : Declaration) : Option Key.Name := d.type.key?.map (·.name)

/-- Whether blocks of the type can be linked into chains. -/
def isStatement (d : Declaration) : Bool := d.previous || d.next

/-- The sockets that blocks are plugged into. -/
def inputs (d : Declaration) : List Socket := d.sockets.filter (!·.isField)

/-- The arguments that hold a value themselves. -/
def fields (d : Declaration) : List Socket := d.sockets.filter (·.isField)

/-- The argument with a name. -/
def socket? (d : Declaration) (name : Value) : Option Socket :=
  d.sockets.find? (·.name.same name)

/-- The field with a name. -/
def field? (d : Declaration) (name : Value) : Option Socket :=
  (d.socket? name).filter (·.isField)

/-- The socket with a name that blocks are plugged into. -/
def input? (d : Declaration) (name : Value) : Option Socket :=
  (d.socket? name).filter (!·.isField)

/-- What the fields of a new block hold. -/
def defaults (d : Declaration) : List (Key × Value) :=
  d.fields.filterMap fun s => s.name.key?.map (·, s.default)

/-- Whether an output of the declared type fits into a socket. -/
def fits (d : Declaration) (s : Socket) : Except Error Bool :=
  match Check.compatible? s.check d.output with
  | some fits => .ok fits
  | none => .error (.failure .wrongType)

/-! ### Description -/

/-- What stands in a slot: the given value, else the default of a field, else the name. -/
def slotText (values : Value) (s : Socket) : Except Error String := do
  match ← values.under s.name with
  | some v => return v.display
  | none =>
    if s.isField && s.default != .null then return s.default.display
    else return "[" ++ s.name.display ++ "]"

/-- A piece of the message filled in.  A number beyond the last argument leaves the slot as it is
written; the number zero stands for the last argument. -/
def fill (d : Declaration) (values : Value) : Template.Part → Except Error String
  | .char c => .ok (String.singleton c)
  | .slot ds =>
    match Template.Part.number? ds with
    | none => .error (.failure .badValue)
    | some 0 =>
      match d.sockets.getLast? with
      | some s => slotText values s
      | none => .error (.failure .outOfRange)
    | some (n + 1) =>
      match d.sockets[n]? with
      | some s => slotText values s
      | none => .ok (String.ofList ('%' :: ds))

/-- The message with its slots filled; values that count as nothing hold nothing. -/
def describe (d : Declaration) (values : Value) : Except Error String := do
  let values := if values.isTruthy then values else .dict []
  return String.join (← (Template.parts d.message).mapM (d.fill values))

/-! ### Declared form -/

/-- A full turn of hue. -/
def fullTurn : Binary64 := Decimal.value false 360 0

/-- The colour of a declaration and the hue it comes from, if it is given by hue. -/
def colourOf (type v : Value) : Except Error (Rgb × Option Binary64) :=
  match v.number? with
  | some n => do
    let hue := (← n.toFloat).modulo fullTurn
    return (← Rgb.ofHue (.float hue), some hue)
  | none =>
    match Rgb.ofValue? v with
    | some c => .ok (c, none)
    | none => .error (.violation (.unreadableColour type v))

/-- The arguments of a declaration. -/
def socketsOf (v : Value) : Except Error (List Socket) := do (← v.parts).mapM Socket.ofValue

/-- Whether the slots of a message are just the numbers of `n` arguments. -/
def slotsMatch (slots : List Nat) (n : Nat) : Bool :=
  slots.all (fun k => 1 ≤ k && k ≤ n) && (List.range n).all fun k => slots.contains (k + 1)

/-- Inserts into an ascending list what is not in it. -/
def insertAscending (n : Nat) : List Nat → List Nat
  | [] => [n]
  | m :: ms => if n < m then n :: m :: ms else if n = m then m :: ms else m :: insertAscending n ms

/-- The numbers of a list in ascending order, each once. -/
def ascending (ns : List Nat) : List Nat := ns.foldr insertAscending []

/-- The block type that a declaration describes. -/
def ofValue : Value → Except Error Declaration
  | .dict es => do
    let get (key : String) (absent : Value) : Value := (Entries.get? es key).getD absent
    let type := get "type" .null
    if !type.isTruthy then throw (.violation .untyped)
    let (colour, hue) ← colourOf type (get "colour" (.int 0))
    let sockets ← socketsOf (get "args0" (.list []))
    let names ← sockets.mapM (·.name.toKey)
    if !decide (names.map (·.name)).Nodup then throw (.violation (.duplicateArguments type))
    let .text message := get "message0" (.text "") | throw (.failure .wrongType)
    let some slots := Template.slots? message | throw (.failure .badValue)
    if !slotsMatch slots sockets.length then
      throw (.violation (.slotMismatch type (ascending slots) sockets.length))
    let output ← Socket.checkOfValue (get "output" .null)
    return { type, message, sockets, output, colour, hue
             previous := (Entries.get? es "previousStatement").isSome
             next := (Entries.get? es "nextStatement").isSome
             isValue := (Entries.get? es "output").isSome
             tooltip := get "tooltip" (.text "")
             help := get "helpUrl" (.text "") }
  | _ => .error (.failure .wrongShape)

/-- The declared form of a block type. -/
def toValue (d : Declaration) : Value :=
  .record (
    [("type", d.type), ("message0", .text d.message),
     ("args0", .list (d.sockets.map Socket.toValue))] ++
    (if d.previous then [("previousStatement", .null)] else []) ++
    (if d.next then [("nextStatement", .null)] else []) ++
    (if d.isValue then
      [("output", match d.output with
        | none => .null
        | some names => Socket.checkToValue names)]
     else []) ++
    [("colour", match d.hue with
      | some h => .float h
      | none => .text d.colour.hex),
     ("tooltip", d.tooltip), ("helpUrl", d.help)])

end Declaration

end Blockwork
