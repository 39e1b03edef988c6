import Blockwork.Value

/-!
# Blocks

One block in a workspace: what its fields hold, which blocks are plugged into it and which follows
it, and where it hangs itself.  The links between blocks are ids; anything may stand in the place of
one, and `null` stands for no link.
-/

namespace Blockwork

/-- A block. -/
structure Block where
  id : Value
  type : Value
  fields : List (Key × Value) := []
  /-- The blocks plugged into its sockets, in the order of plugging. -/
  inputs : List (Key × Value) := []
  /-- The block that follows it. -/
  next : Value := .null
  /-- The block it hangs from. -/
  parent : Value := .null
  /-- The socket of the parent it is plugged into; `null` when it follows the parent. -/
  parentInput : Value := .null
  /-- Its coordinates, first the one to the right, then the one downwards. -/
  position : List Value := [.float (.zero false), .float (.zero false)]
  enabled : Value := .bool true
  colour : Value := .text "#000000"
  /-- The colour to be restored, while another one is shown, and `null` otherwise. -/
  savedColour : Value := .null
  deriving DecidableEq

namespace Block

/-- Whether the block hangs nowhere. -/
def isTop (b : Block) : Bool := b.parent == .null

/-- Whether the block is turned on. -/
def isEnabled (b : Block) : Bool := b.enabled.isTruthy

/-- Whether another colour than its own is shown. -/
def isHighlighted (b : Block) : Bool := b.savedColour != .null

/-- The blocks it leads to: those plugged into it, then the next one, unless its id says nothing. -/
def targets (b : Block) : List Value :=
  b.inputs.map (·.2) ++ if b.next.isTruthy then [b.next] else []

end Block

end Blockwork
