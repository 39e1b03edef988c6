import Blockwork.Store.Slots
import Blockwork.Workspace.Edit

/-!
# Scenes

A workspace, its host, and the state of the audience that is told of every change.  A member of the
audience may act on the scene, and may fail; a failure keeps what was done until then.  While a
workspace is muted, nothing is told.
-/

namespace Blockwork

/-- A workspace, its host, and the state `σ` of the audience. -/
structure Scene (σ : Type) where
  workspace : Workspace
  host : Host := {}
  audience : σ

/-- An action on a scene. -/
abbrev Act (σ : Type) := EStateM Error (Scene σ)

/-- How changes are taken in. -/
structure Audience (σ : Type) where
  hear : Change → Act σ Unit

/-- An audience that pays no attention. -/
def Audience.silent {σ : Type} : Audience σ := ⟨fun _ => pure ()⟩

/-- An audience that remembers every change. -/
def Audience.journal : Audience (List Change) :=
  ⟨fun c => modify fun s => { s with audience := s.audience ++ [c] }⟩

namespace Act

variable {σ : Type}

/-- An answer that may be an error. -/
def ofExcept {α : Type} : Except Error α → Act σ α
  | .ok a => pure a
  | .error e => throw e

/-- An edit of the workspace, without its notices being told. -/
def edit {α : Type} (e : Edit α) : Act σ α := fun s =>
  match e s.workspace with
  | .ok a w => .ok a { s with workspace := w }
  | .error x w => .error x { s with workspace := w }

/-- An action on the host. -/
def onHost {α : Type} (f : HostAction α) : Act σ α := fun s =>
  match f s.host with
  | .ok a h => .ok a { s with host := h }
  | .error x h => .error x { s with host := h }

/-- Adds an entry to the log. -/
def note (level : Level) (area : Area) (text : String) : Act σ Unit :=
  modify fun s => { s with host := s.host.note level area text }

/-- An action with its error changed. -/
def mapError {α : Type} (f : Error → Error) (a : Act σ α) : Act σ α := fun s =>
  match a s with
  | .ok x s => .ok x s
  | .error e s => .error (f e) s

/-- An action with its error as an answer. -/
def attempt {α : Type} (a : Act σ α) : Act σ (Except Error α) := fun s =>
  match a s with
  | .ok x s => .ok (.ok x) s
  | .error e s => .ok (.error e) s

/-- A notice as a change at the present time. -/
def changeOf (w : Workspace) (n : Notice) : Change :=
  { kind := n.kind, block := n.block, duringDrag := w.dragging, data := n.dataIn w }

/-- Tells the audience, unless the workspace is muted; the answer is what was told. -/
def tell (a : Audience σ) (n : Notice) : Act σ (Option Change) := do
  let w := (← get).workspace
  if w.muted = 0 then
    let c := changeOf w n
    a.hear c
    return some c
  else return none

/-- Tells the audience one notice after the other. -/
def tellAll (a : Audience σ) : List Notice → Act σ Unit
  | [] => pure ()
  | n :: ns => do
    let _ ← tell a n
    tellAll a ns

/-- An edit with its notices told. -/
def perform (a : Audience σ) (e : Edit (List Notice)) : Act σ Unit := do
  tellAll a (← edit e)

/-- The creation of a block, with its notices told. -/
def create (a : Audience σ) (type id position : Value) (fields : List (Key × Value)) :
    Act σ Key := do
  let (id, notices) ← edit (Edit.create type id position fields)
  tellAll a notices
  return id

/-- Deletes the blocks that ids belong to one after the other with all that hangs from them, those
that are still there. -/
def deleteAll (a : Audience σ) : List Value → Act σ Unit
  | [] => pure ()
  | id :: ids => do
    let k ← ofExcept id.toKey
    if (← get).workspace.contains k then perform a (Edit.delete k false)
    deleteAll a ids

/-- Deletes every block that hangs nowhere, with all that hangs from it. -/
def clear (a : Audience σ) : Act σ Unit := do
  deleteAll a ((← ofExcept (← get).workspace.tops).map (·.id))

/-- Keeps one more time, or one time less, changes from the audience. -/
def mute : Act σ Unit :=
  modify fun s => { s with workspace := { s.workspace with muted := s.workspace.muted + 1 } }

@[inherit_doc mute]
def unmute : Act σ Unit :=
  modify fun s => { s with workspace := { s.workspace with muted := s.workspace.muted - 1 } }

/-- An action during which nothing is told, also when it fails. -/
def quietly {α : Type} (a : Act σ α) : Act σ α := do
  mute
  let r ← attempt a
  unmute
  match r with
  | .ok x => return x
  | .error e => throw e

end Act

end Blockwork
