import Blockwork.Error

/-!
# Changes

What a workspace tells its audience: that a block was created, deleted, changed or moved, that a
stored workspace was loaded, or that only the view is another one.  From a change alone it can be
told whether it warrants saving (`Change.warrantsSave`) and whether the program is to be made anew
(`Change.warrantsCycle`).
-/

namespace Blockwork

/-- What happened. -/
inductive Change.Kind where
  | create
  | delete
  | change
  | move
  | finishedLoading
  | viewport
  | selected
  | click
  | drag
  | theme
  deriving DecidableEq, Repr

/-- Something that happened to a workspace. -/
structure Change where
  kind : Change.Kind
  /-- The block it happened to. -/
  block : Value := .null
  /-- Whether a drag gesture was in progress. -/
  duringDrag : Bool := false
  data : List (Key × Value) := []
  deriving DecidableEq

namespace Change

/-- The name of a kind. -/
def Kind.name : Kind → String
  | .create => "create"
  | .delete => "delete"
  | .change => "change"
  | .move => "move"
  | .finishedLoading => "finished_loading"
  | .viewport => "viewport_change"
  | .selected => "selected"
  | .click => "click"
  | .drag => "drag"
  | .theme => "theme_change"

/-- All kinds. -/
def Kind.all : List Kind :=
  [.create, .delete, .change, .move, .finishedLoading, .viewport, .selected, .click, .drag, .theme]

/-- The kind with a name. -/
def Kind.ofName (name : Value) : Except Error Kind :=
  match Kind.all.find? fun k => Value.text k.name == name with
  | some k => .ok k
  | none => .error (.failure .badValue)

/-- Whether only the view is another one. -/
def Kind.isView : Kind → Bool
  | .viewport | .selected | .click | .drag | .theme => true
  | _ => false

/-- Whether only the view is another one. -/
def isView (c : Change) : Bool := c.kind.isView

/-- Whether the change is to be saved: anything but a change of the view. -/
def warrantsSave (c : Change) : Bool := !c.isView

/-- Whether the change starts a new cycle: not one of the view, not the end of loading, which is
followed by a cycle of its own, and not one during a drag, when blocks may be half connected. -/
def warrantsCycle (c : Change) : Bool :=
  !c.isView && c.kind != .finishedLoading && !c.duringDrag

/-- The change as a record. -/
def toValue (c : Change) (timestamp : Value) : Value :=
  .record [
    ("type", .text c.kind.name), ("block_id", c.block), ("is_ui", .bool c.isView),
    ("during_drag", .bool c.duringDrag), ("data", .dict c.data), ("timestamp", timestamp)]

end Change

end Blockwork
