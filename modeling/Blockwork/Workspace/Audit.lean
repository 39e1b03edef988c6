import Std.Data.HashMap
import Blockwork.Workspace.Basic

/-!
# Audits

What is wrong with a workspace whose links were written without the checks of edits: types that are
not declared, links to blocks that are not there, sockets that do not take what is plugged into
them, and cycles of links.
-/

namespace Blockwork.Workspace

/-! ### Cycles -/

/-- Why a search for cycles ends early. -/
inductive Halt where
  | cycle
  | failure (cause : Error)

/-- The blocks that a block links to; a missing block links to none. -/
def targetsOf (w : Workspace) (k : Key) : List Value :=
  match w.find? k with
  | some b => b.targets
  | none => []

/-- The key that a link is. -/
def linkKey (link : Value) : Except Halt Key := link.toKey.mapError .failure

/-- What a search for cycles has come upon: whether the search from there is over. -/
abbrev Marks := Std.HashMap Key.Name Bool

/-- A search for cycles, depth first.  The marks that are `false` are those on the way to `k`, from
the others no cycle is reached; the answer is the marks with `k` among the others. -/
def searchFrom (w : Workspace) : Nat → Marks → Key → Except Halt Marks
  | 0, marks, _ => .ok marks
  | n + 1, marks, k =>
    match marks[k.name]? with
    | some true => .ok marks
    | some false => .error .cycle
    | none => do
      let marks ← (w.targetsOf k).foldlM
        (fun marks t => do searchFrom w n marks (← linkKey t)) (marks.insert k.name false)
      return marks.insert k.name true

/-- Whether there is a cycle of links. -/
def hasCycle (w : Workspace) : Except Error Bool :=
  match w.entries.foldlM (fun marks (k, _) => w.searchFrom (w.size + 1) marks k) ∅ with
  | .ok _ => .ok false
  | .error .cycle => .ok true
  | .error (.failure e) => .error e

/-! ### Findings -/

/-- What is wrong with one binding of a block. -/
def auditInput (w : Workspace) (b : Block) (d : Declaration) (name : Key) (child : Value) :
    Except Error (List Violation) := do
  match w.find? (← child.toKey) with
  | none => return [.missingChild b.id name child]
  | some c =>
    match d.input? (.ofKey name) with
    | none => return [.unknownInput b.id name]
    | some s =>
      if ← (← w.declarationOf c).fits s then return []
      else return [.misfit child b.type name]

/-- What is wrong with the link of a block to the next one. -/
def auditNext (w : Workspace) (b : Block) : Except Error (List Violation) := do
  if b.next = .null then return []
  else if w.contains (← b.next.toKey) then return []
  else return [.missingNext b.id b.next]

/-- What is wrong with one block. -/
def auditBlock (w : Workspace) (b : Block) : Except Error (List Violation) := do
  match w.vocabulary.find? (← b.type.toKey) with
  | none => return [.unknownTypeOf b.id b.type]
  | some d =>
    let inputs ← b.inputs.mapM fun (name, child) => w.auditInput b d name child
    return inputs.flatten ++ (← w.auditNext b)

/-- What is wrong with the workspace, block by block, and at last whether there is a cycle. -/
def audit (w : Workspace) : Except Error (List Violation) := do
  let found ← w.blocks.mapM w.auditBlock
  return found.flatten ++ if ← w.hasCycle then [.cyclic] else []

end Blockwork.Workspace
