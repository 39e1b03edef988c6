import Blockwork.Settings
import Blockwork.Snapshot.Encode
import Blockwork.Snapshot.Rebuild
import Blockwork.Store.Slots

/-!
# Archives

A workspace is stored as one text under one key (`Archive.save`) and read back as a whole
(`Archive.load`).  A text that cannot be read back leaves the workspace empty; when there is none,
or the slots are not readable, it stays as it was.
-/

namespace Blockwork

/-- Where a workspace is stored. -/
structure Archive where
  slots : Slots
  key : Value := .text defaultKey
  deriving DecidableEq

namespace Archive

variable {σ : Type}

/-- The slots that settings ask for. -/
def slotsOf (s : Settings) : HostAction Slots := do
  match s.backend with
  | .memory =>
    let (h, number) := (← get).addMemory []
    set h
    return .memory number
  | .json => prepare .json s.path
  | .sqlite => prepare .database s.path
where
  /-- Makes the directories that lead to a file. -/
  prepare (slots : String → Slots) : Value → HostAction Slots
    | .text path => do
      Slots.onDisk (Disk.makeParents path)
      return slots path
    | _ => throw (.failure .wrongType)

/-- The archive that settings ask for. -/
def ofSettings (s : Settings) : HostAction Archive := do
  return ⟨← slotsOf s, s.key⟩

/-- The text that a workspace is stored as. -/
def textOf (w : Workspace) : Except Error String := do
  Json.line (← Snapshot.ofWorkspace w)

/-- Stores the workspace; the answer is the stored text. -/
def save (a : Archive) : Act σ String := do
  match textOf (← get).workspace with
  | .error e => throw e
  | .ok text =>
    Act.onHost (a.slots.put a.key text)
    return text

/-- Whether an error means that a stored text is not readable. -/
def isUnreadable : Error → Bool
  | .damage _ | .notHex _ => true
  | .failure f => f.isBadValue || f = .tooDeep
  | _ => false

/-- Builds the workspace from a stored text, in the place of what it held. -/
def restore (audience : Audience σ) (text : String) : Act σ Unit := do
  match Json.read text with
  | .error e => throw e
  | .ok document =>
    let _ ← Snapshot.rebuild audience document

/-- Empties the workspace and builds it from a stored text; `false` when the text is not readable,
and the workspace empty then. -/
def replace (a : Archive) (audience : Audience σ) (text : String) : Act σ Bool := do
  Act.clear audience
  match ← Act.attempt (restore audience text) with
  | .ok () => return true
  | .error e =>
    if isUnreadable e then
      Act.note .warning .persistence
        ("Ignoring saved workspace '" ++ a.key.display ++ "': " ++ e.display)
      Act.clear audience
      return false
    else throw e

/-- Reads the stored workspace back; whether there was one.  Nothing is told but the end of
loading. -/
def load (a : Archive) (audience : Audience σ) : Act σ Bool := do
  match ← Act.attempt (Act.onHost (a.slots.get a.key)) with
  | .error (.damage d) =>
    Act.note .warning .persistence ("Ignoring saved workspace: " ++ d.message)
    return false
  | .error e => throw e
  | .ok none => return false
  | .ok (some text) =>
    if ← Act.quietly (a.replace audience text) then
      let size := (← get).workspace.size
      Act.note .info .persistence
        ("Restored " ++ Decimal.integer size ++ " blocks from '" ++ a.key.display ++ "'")
      let _ ← Act.tell audience { kind := .finishedLoading }
      return true
    else return false

/-- Removes the stored workspace. -/
def clear (a : Archive) : Act σ Unit := Act.onHost (a.slots.delete a.key)

end Archive

end Blockwork
