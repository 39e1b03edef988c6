import Blockwork.Colour.Shade
import Blockwork.Program.Basic
import Blockwork.Trace

/-!
# Highlighting

While the steps of a block run, the block is shown in a lighter colour.  Its own colour is saved in
the block, so that it can be restored however the run ends.  A program is prepared for this by a
step before and a step after those of each statement (`Program.instrument`).
-/

namespace Blockwork

/-- A way to highlight blocks. -/
structure Highlighter where
  shade : Shade
  /-- How many of those who are told of changes of colour fail at it. -/
  faulty : Nat := 0

namespace Highlighter

/-- Notes a change of colour, and each failure of somebody who was told of it. -/
def announce (h : Highlighter) (kind : Glow.Kind) (id colour : Value) : Run Unit := do
  Run.record fun t => { t with glows := t.glows.push ⟨kind, id, colour⟩ }
  let text := "Error in highlight callback for block " ++ id.display
  modify fun s => { s with host := Nat.repeat (·.note .error .highlighter text) h.faulty s.host }

/-- Shows the block with an id in the lighter colour; the answer is that colour, or nothing when
there is no such block. -/
def activate (h : Highlighter) (id : Value) : Run (Option Value) := do
  let k ← Act.ofExcept id.toKey
  match (← get).workspace.find? k with
  | none => return none
  | some b =>
    let own := if b.isHighlighted then b.savedColour else b.colour
    Act.edit (Edit.update k fun b => { b with savedColour := own })
    let colour := Value.text (← Act.ofExcept (h.shade.lightenText own))
    Act.edit (Edit.update k fun b => { b with colour })
    h.announce .activate id colour
    return some colour

/-- Shows the block with an id in its own colour again; the answer is that colour, or nothing when
no such block is highlighted. -/
def restore (h : Highlighter) (id : Value) : Run (Option Value) := do
  let k ← Act.ofExcept id.toKey
  match ((← get).workspace.find? k).filter (·.isHighlighted) with
  | none => return none
  | some b =>
    let colour := b.savedColour
    Act.edit (Edit.update k fun b => { b with colour, savedColour := .null })
    h.announce .restore id colour
    return some colour

/-- Restores the blocks under keys one after the other, those that are highlighted; the answer is
their ids. -/
def restoreEach (h : Highlighter) : List Key → Run (List Value)
  | [] => return []
  | k :: ks => do
    match ((← get).workspace.find? k).filter (·.isHighlighted) with
    | none => restoreEach h ks
    | some b =>
      let _ ← h.restore b.id
      return b.id :: (← restoreEach h ks)

/-- Restores all blocks that are highlighted; the answer is their ids. -/
def restoreAll (h : Highlighter) : Run (List Value) := do
  h.restoreEach ((← get).workspace.entries.map (·.1))

end Highlighter

/-! ### Preparing programs -/

/-- The fragment with its steps between highlighting and restoring the block, if it is a
statement. -/
def Fragment.instrument (f : Fragment) : Fragment :=
  if f.isStatement then { f with ops := .highlight f.block :: f.ops ++ [.restore f.block] } else f

/-- The program with each statement highlighted while it runs. -/
def Program.instrument (p : Program) : Program :=
  { p with chains := p.chains.map (·.map Fragment.instrument) }

end Blockwork
