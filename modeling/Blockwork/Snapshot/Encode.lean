import Blockwork.Workspace.Basic

/-!
# Snapshots

The structure of a workspace as a document.  Each chain is an entry of its first block with its
position and a flat list of the blocks that follow; what is plugged into a block stands inside its
entry, so that the document nests as deeply as values do and no deeper for long chains.
-/

namespace Blockwork.Snapshot

/-- How many values may be plugged into one another in a workspace that is written. -/
def nestingLimit : Nat := 900

/-- The version of the form. -/
def version : Int := 0

/-- The sockets of a block with the ids of what is plugged into them, in the order of the
declaration. -/
def plugs (b : Block) (d : Declaration) : List (Key × Value) :=
  d.inputs.filterMap fun s => do
    let name ← s.name.key?
    let link ← Entries.get? b.inputs name
    if link = .null then none else some (name, link)

/-- The entry of a block with what is plugged into it, to at most `n` levels; links to the blocks
that follow are left out. -/
def ofBlock (w : Workspace) : Nat → Block → Except Error (List (String × Value))
  | 0, _ => .error (.failure .tooDeep)
  | n + 1, b => do
    let d ← w.declarationOf b
    let inputs ← (plugs b d).mapM fun (name, link) => do
      match w.find? (← link.toKey) with
      | none => throw (.failure .missingKey)
      | some c => return (name, Value.record [("block", .record (← ofBlock w n c))])
    return [("type", b.type), ("id", b.id)] ++
      (if b.isEnabled then [] else [("enabled", .bool false)]) ++
      (if b.fields.isEmpty then [] else [("fields", .dict b.fields)]) ++
      (if inputs.isEmpty then [] else [("inputs", .dict inputs)])

/-- The entry of a block that hangs nowhere, with its position and the blocks that follow. -/
def ofChain (w : Workspace) (top : Block) : Except Error Value := do
  let chain ← w.chain (← top.id.toKey)
  let entry ← ofBlock w nestingLimit top
  let x ← Workspace.coordinate top 0
  let y ← Workspace.coordinate top 1
  let following ← chain.tail.mapM fun (_, b) => do
    return Value.record (← ofBlock w nestingLimit b)
  return .record (entry ++ [("x", x), ("y", y)] ++
    (if following.isEmpty then []
     else [("next", .record [("blocks", .list following)])]))

/-- The document of a workspace; that of an empty one is empty. -/
def ofWorkspace (w : Workspace) : Except Error Value := do
  let chains ← (← w.tops).mapM (ofChain w)
  if chains.isEmpty then return .dict []
  return .record
    [("blocks", .record [("languageVersion", .int version), ("blocks", .list chains)])]

end Blockwork.Snapshot
