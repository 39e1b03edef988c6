import Blockwork.Change
import Blockwork.Workspace.Basic

/-!
# Edits

The changes a workspace can undergo, one at a time.  An edit answers with what it has to tell the
audience.  It may fail; whatever it has done until then stays done, but every check comes before the
first change, so that a failed edit of a well-formed workspace leaves it as it was.
-/

namespace Blockwork

/-- Something to tell, before it is known whether a drag is in progress. -/
structure Notice where
  kind : Change.Kind
  block : Value := .null
  data : List (Key × Value) := []
  /-- The block whose position is told, where it is looked up no sooner than that. -/
  placed : Option Key := none
  deriving DecidableEq

/-- The data of a notice that is told now.  Where the block whose position is told has gone
meanwhile, the data are those that the notice was made with. -/
def Notice.dataIn (n : Notice) (w : Workspace) : List (Key × Value) :=
  match n.placed with
  | none => n.data
  | some k =>
    match w.find? k with
    | some b => [(.text "new_position", .list b.position)]
    | none => n.data

/-- A change of a workspace, with an answer. -/
abbrev Edit := EStateM Error Workspace

namespace Edit

/-- A notice with data under texts. -/
def notice (kind : Change.Kind) (id : Key) (data : List (String × Value)) : Notice :=
  { kind, block := .ofKey id, data := data.map fun (k, v) => (.text k, v) }

/-- Fails with a violation. -/
def refuse {α : Type} (v : Violation) : Edit α := throw (.violation v)

/-- An answer that may be an error. -/
def ofExcept {α : Type} : Except Error α → Edit α
  | .ok a => pure a
  | .error e => throw e

/-- A block that there has to be. -/
def require (id : Key) : Edit Block := do
  match (← get).find? id with
  | some b => pure b
  | none => refuse (.noSuchBlock id)

/-- A block that has been found before. -/
def deref (k : Key) : Edit Block := do
  match (← get).find? k with
  | some b => pure b
  | none => throw (.failure .missingKey)

/-- The key of the block that a link leads to, which there has to be. -/
def follow (link : Value) : Edit Key := do
  let k ← ofExcept link.toKey
  let _ ← deref k
  return k

/-- The declaration of a block's type. -/
def declarationOf (b : Block) : Edit Declaration := do ofExcept ((← get).declarationOf b)

/-- Changes the block under a key. -/
def update (k : Key) (f : Block → Block) : Edit Unit :=
  modify fun w => { w with table := w.table.modify k f }

/-- The coordinates that the first two parts of a value are. -/
def coordinates (position : Value) : Except Error (List Value) := do
  let x ← (← position.item 0).toFloat
  let y ← (← position.item 1).toFloat
  return [.float x, .float y]

/-! ### Creating and changing -/

/-- The fields of a new block of a declared type, with `given` written into them one after the
other. -/
def fillFields (type : Value) (d : Declaration) (given : List (Key × Value)) :
    Edit (List (Key × Value)) :=
  given.foldlM (fun fields (name, v) => do
    match d.field? (.ofKey name) with
    | none => refuse (.noSuchField type (.ofKey name))
    | some s => return Entries.put fields name (← ofExcept (s.coerce v))) d.defaults

/-- The id a new block is given: the one asked for, which may not be in use. -/
def claimId (id : Value) : Edit (Option Key) := do
  if id = .null then return none
  let k ← ofExcept id.toKey
  if (← get).contains k then refuse (.duplicateId k) else return some k

/-- Creates a block that hangs nowhere; without an id it gets a new one. -/
def create (type id position : Value) (fields : List (Key × Value)) :
    Edit (Key × List Notice) := do
  let d ← ofExcept ((← get).vocabulary.get (← ofExcept type.toKey))
  let asked ← claimId id
  let fields ← fillFields type d fields
  let position ← ofExcept (coordinates position)
  let number := (← get).created + 1
  let id := asked.getD (.text ("auto-" ++ Decimal.integer number))
  let b : Block :=
    { id := .ofKey id, type, fields, position, colour := .text d.colour.hex }
  modify fun w => { w with table := w.table.put id b, created := number }
  return (id, [notice .create id [("block_type", type)]])

/-- Writes a value into a field.  Writing what is there already changes nothing. -/
def setField (id : Key) (name value : Value) : Edit (List Notice) := do
  let b ← require id
  match (← declarationOf b).field? name, name.key? with
  | some s, some k =>
    let old := (Entries.get? b.fields k).getD .null
    let new ← ofExcept (s.coerce value)
    if new.same old then return []
    update id fun b => { b with fields := Entries.put b.fields k new }
    return [notice .change id
      [("element", .text "field"), ("name", name), ("old_value", old), ("new_value", new)]]
  | _, _ => refuse (.noSuchField b.type name)

/-- Turns a block on or off; what counts as something turns it on. -/
def setEnabled (id : Key) (enabled : Value) : Edit (List Notice) := do
  let b ← require id
  if b.enabled.same enabled then return []
  update id fun b => { b with enabled }
  return [notice .change id
    [("element", .text "disabled"), ("old_value", .bool !enabled.isTruthy),
     ("new_value", enabled)]]

/-- Moves a block to another position. -/
def move (id : Key) (x y : Value) : Edit (List Notice) := do
  let b ← require id
  let position ← ofExcept (coordinates (.list [x, y]))
  update id fun b => { b with position }
  return [notice .move id
    [("old_position", .list b.position), ("new_position", .list position)]]

/-! ### Connecting -/

/-- The inputs of a block without the one that an id of a socket names.  A block without inputs has
none, whatever the id. -/
def dropInput (inputs : List (Key × Value)) (socket : Value) :
    Except Error (List (Key × Value)) := do
  if inputs.isEmpty then return [] else return Entries.erase inputs (← socket.toKey)

/-- Takes a block from where it hangs, on both sides of the link. -/
def unplug (k : Key) : Edit Unit := do
  let b ← deref k
  if b.parent = .null then return
  let above ← follow b.parent
  if b.parentInput = .null then update above fun p => { p with next := .null }
  else
    let inputs ← ofExcept (dropInput (← deref above).inputs b.parentInput)
    update above fun p => { p with inputs }
  update k fun b => { b with parent := .null, parentInput := .null }

/-- Takes a block, with all that hangs from it, from where it hangs. -/
def disconnect (id : Key) : Edit (List Notice) := do
  let b ← require id
  if b.parent = .null then return []
  unplug id
  return [notice .move id [("old_parent", b.parent), ("old_input", b.parentInput)]]

/-- Plugs a block into a socket.  The block that is in the socket is taken out and hangs nowhere. -/
def connectValue (above : Key) (socket : Value) (below : Key) : Edit (List Notice) := do
  let parent ← require above
  let child ← require below
  let some s := (← declarationOf parent).input? socket
    | refuse (.noSuchInput parent.type socket)
  let some name := socket.key? | refuse (.noSuchInput parent.type socket)
  let d ← declarationOf child
  if !d.isValue then refuse (.noOutput child.type socket)
  if !(← ofExcept (d.fits s)) then
    refuse (.outputMismatch child.type d.output parent.type socket s.check)
  if ← ofExcept ((← get).hangsFrom below above) then refuse (.bindsCycle below above)
  let occupant := (Entries.get? parent.inputs name).getD .null
  if occupant.same (.ofKey below) then return []
  if occupant ≠ .null then unplug (← follow occupant)
  unplug below
  update above fun p => { p with inputs := Entries.put p.inputs name (.ofKey below) }
  update below fun c => { c with parent := .ofKey above, parentInput := socket }
  return [notice .move below [("new_parent", .ofKey above), ("new_input", socket)]]

/-- Lets a block, with the blocks that follow it, follow another one.  What followed that one
follows the last of them, if it can be followed, and hangs nowhere otherwise. -/
def connectNext (above below : Key) : Edit (List Notice) := do
  let parent ← require above
  let child ← require below
  if !(← declarationOf parent).next then refuse (.noNext parent.type)
  if !(← declarationOf child).previous then refuse (.noPrevious child.type)
  if ← ofExcept ((← get).hangsFrom below above) then refuse (.linksCycle below above)
  if parent.next.same (.ofKey below) then return []
  unplug below
  let displaced := (← deref above).next
  if displaced ≠ .null then unplug (← follow displaced)
  update above fun p => { p with next := .ofKey below }
  update below fun c => { c with parent := .ofKey above, parentInput := .null }
  if displaced ≠ .null then
    if let some (last, tail) := (← ofExcept ((← get).chain below)).getLast? then
      if (← declarationOf tail).next then
        let moved ← follow displaced
        update last fun t => { t with next := displaced }
        update moved fun m => { m with parent := tail.id, parentInput := .null }
  return [notice .move below [("new_parent", .ofKey above), ("new_input", .null)]]

/-! ### Deleting -/

/-- Removes the blocks that ids belong to one after the other, each of which there has to be. -/
def removeAll : List Value → Edit Unit
  | [] => pure ()
  | id :: ids => do
    let k ← follow id
    modify fun w => { w with table := w.table.erase k }
    removeAll ids

/-- Puts the block that followed a deleted one into its place: behind the block that this one
followed, or else on its position. -/
def moveUp (deleted : Block) : Edit Unit := do
  let following ← follow deleted.next
  let above ← if deleted.parent.isTruthy then some <$> ofExcept deleted.parent.toKey else pure none
  match above.filter (← get).contains, decide (deleted.parentInput = .null) with
  | some k, true =>
    update k fun p => { p with next := deleted.next }
    update following fun f => { f with parent := deleted.parent }
  | _, _ => update following fun f => { f with position := deleted.position }

/-- Deletes a block with all that hangs from it.  When the chain is to be healed, the blocks that
follow it stay and take its place. -/
def delete (id : Key) (heal : Bool) : Edit (List Notice) := do
  let b ← require id
  let heals := heal && b.next != .null
  if heals then unplug (← follow b.next)
  unplug id
  let removed := (← ofExcept ((← get).descendants id)).map (·.id)
  removeAll removed
  if heals then moveUp b
  return [notice .delete id [("ids", .list removed)]]

/-! ### Dragging -/

/-- A drag gesture begins. -/
def beginDrag (id : Key) : Edit (List Notice) := do
  let _ ← require id
  modify fun w => { w with dragging := true }
  return [notice .drag id [("is_start", .bool true)]]

/-- A drag gesture ends; the block has come to rest.  Its position is looked up when those who
listen have been told of the end. -/
def endDrag (id : Key) : Edit (List Notice) := do
  let b ← require id
  modify fun w => { w with dragging := false }
  let rest := notice .move id [("new_position", .list b.position)]
  return [notice .drag id [("is_start", .bool false)], { rest with placed := id }]

end Edit

end Blockwork
