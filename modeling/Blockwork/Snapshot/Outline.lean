import Blockwork.Number

/-!
# Outlines

What a stored document asks to be built: for each chain the entry of its first block and the
entries of the blocks that follow, and inside an entry those of the blocks plugged into it.  A part
of the document that is not in order stands in the outline as a fault, at the place where building
comes upon it.  The two forms in which the blocks of a chain may be linked, in one flat list or each
inside the one before it, have the same outline.
-/

namespace Blockwork

/-- What an entry says about its block itself. -/
structure Snapshot.Head where
  type : Option Value
  id : Value
  position : Value
  fields : List (Key × Value)
  disabled : Bool

/-- The entry of a block; an input is a socket with the entry of the block to be plugged into it, or
with nothing when it is not in order. -/
inductive Snapshot.Entry where
  | fault (cause : Error)
  | block (head : Snapshot.Head) (inputs : List (Key × Option Snapshot.Entry))

/-- The entries of a chain. -/
structure Snapshot.Strand where
  top : Snapshot.Entry
  following : List Snapshot.Entry

namespace Snapshot

/-- The position of blocks that hang from others. -/
def origin : Value := .list [.float (.zero false), .float (.zero false)]

/-- Whether a key is a text. -/
def isNamed (k : Key) (name : String) : Bool := k == .text name

/-- The fields of an entry: nothing, or a dictionary. -/
def fieldsOf (es : List (Key × Value)) : Option (List (Key × Value)) :=
  match (Entries.get? es "fields").getD .null with
  | .dict fs => some fs
  | v => if v.isTruthy then none else some []

/-- What the entries of a dictionary say about a block itself. -/
def headOf (position : Value) (es fields : List (Key × Value)) : Head where
  type := Entries.get? es "type"
  id := (Entries.get? es "id").getD .null
  position
  fields
  disabled := decide (Entries.get? es "enabled" = some (.bool false))

mutual

/-- The entry that a value describes. -/
def entryOf (position : Value) : Value → Entry
  | .dict es =>
    match fieldsOf es, inputsIn es with
    | some fields, some inputs => .block (headOf position es fields) inputs
    | _, _ => .fault (.damage (.parts ((Entries.get? es "id").getD .null)))
  | v => .fault (.damage (.entry v))

/-- The inputs among the entries of a dictionary. -/
def inputsIn : List (Key × Value) → Option (List (Key × Option Entry))
  | [] => some []
  | (k, v) :: es => if isNamed k "inputs" then inputsOf v else inputsIn es

/-- The inputs that a value describes: nothing, or a dictionary. -/
def inputsOf : Value → Option (List (Key × Option Entry))
  | .dict es => some (plugsIn es)
  | v => if v.isTruthy then none else some []

/-- The inputs of a dictionary of sockets. -/
def plugsIn : List (Key × Value) → List (Key × Option Entry)
  | [] => []
  | (k, v) :: es => plugOf k v ++ plugsIn es

/-- What is plugged into one socket; nothing, if no block is given. -/
def plugOf (socket : Key) : Value → List (Key × Option Entry)
  | .dict es => (childIn es).map fun e => (socket, some e)
  | _ => [(socket, none)]

/-- The block among the entries of a connection. -/
def childIn : List (Key × Value) → List Entry
  | [] => []
  | (k, v) :: es =>
    if isNamed k "block" then (if v = .null then [] else [entryOf origin v])
    else childIn es

end

/-- The entry of a block that hangs from another one. -/
def hangingEntry : Value → Entry := entryOf origin

/-- The entries of a flat list, up to the first that has a link of its own. -/
def listed : List Value → List Entry
  | [] => []
  | .dict es :: rest =>
    if (Entries.get? es "next").getD .null = .null then hangingEntry (.dict es) :: listed rest
    else [.fault (.damage (.linkInList ((Entries.get? es "id").getD .null)))]
  | v :: rest => hangingEntry v :: listed rest

mutual

/-- The entries behind a link of the block with an id, where each link holds one block, which has
the next link. -/
def linked (id : Value) : Value → List Entry
  | .null => []
  | .dict ls => linkedIn id ls
  | _ => [.fault (.damage (.nextLink id))]

/-- The entries behind the block among the entries of a link. -/
def linkedIn (id : Value) : List (Key × Value) → List Entry
  | [] => [.fault (.damage (.nextLink id))]
  | (k, v) :: ls =>
    if isNamed k "block" then hangingEntry v :: after v else linkedIn id ls

/-- The entries that follow the one a value describes. -/
def after : Value → List Entry
  | .dict es => nextIn ((Entries.get? es "id").getD .null) es
  | _ => []

/-- The entries behind the link among the entries of a dictionary. -/
def nextIn (id : Value) : List (Key × Value) → List Entry
  | [] => []
  | (k, v) :: es => if isNamed k "next" then linked id v else nextIn id es

end

/-- The list that a link holds, if it holds one. -/
def listIn? : Value → Option Value
  | .dict ls => Entries.get? ls "blocks"
  | _ => none

/-- The entries that follow the first one of a chain: those of one list, or each behind a link of
the one before it.  Only the first link may hold a list. -/
def following (es : List (Key × Value)) : List Entry :=
  match listIn? ((Entries.get? es "next").getD .null) with
  | some (.list xs) => listed xs
  | some _ => [.fault (.damage (.nextList ((Entries.get? es "id").getD .null)))]
  | none => after (.dict es)

/-- The chain that a value at the top describes. -/
def strandOf (v : Value) : Strand :=
  match v with
  | .dict es =>
    let coordinate (name : String) : Except Error Binary64 :=
      ((Entries.get? es name).getD (.int 0)).toFloat
    match coordinate "x", coordinate "y" with
    | .ok x, .ok y => ⟨entryOf (.list [.float x, .float y]) v, following es⟩
    | .error e, _ | _, .error e => ⟨.fault e, []⟩
  | v => ⟨.fault (.damage (.topEntry v)), []⟩

/-- The outline of a document. -/
def outline : Value → Except Error (List Strand)
  | .dict es =>
    match Entries.get? es "blocks" with
    | none => .ok []
    | some (.dict state) =>
      match (Entries.get? state "blocks").getD (.list []) with
      | .list xs =>
        let version := (Entries.get? state "languageVersion").getD (.int 0)
        if version.same (.int 0) then .ok (xs.map strandOf)
        else .error (.damage (.version version))
      | _ => .error (.damage .sectionShape)
    | some _ => .error (.damage .sectionShape)
  | _ => .error (.damage .shape)

end Snapshot

end Blockwork
