import Blockwork.Program.Basic
import Blockwork.Compile.Names
import Blockwork.Compile.Precedence
import Blockwork.Workspace.Basic

/-!
# Compilation

From the blocks of a workspace to a program.  Each block type has a rule, which makes an expression
with its precedence, or steps, out of a block; a rule asks for the expressions of the blocks that
are plugged in and need not know them.  Definitions and imports that rules ask for are collected,
each once.
-/

namespace Blockwork

/-- What has been collected while a program is compiled. -/
structure Draft where
  /-- The names in use. -/
  used : List Key := []
  definitions : List Subroutine := []
  /-- The names that definitions were given, by the names asked for. -/
  granted : List (Key × String) := []
  imports : List Value := []

/-- A part of a compilation. -/
abbrev Drafting := EStateM Error Draft

/-- What a rule makes of a block: an expression with its precedence, or steps. -/
inductive Compile.Outcome where
  | value (e : Expr) (order : Value)
  | ops (ops : List Op)

/-- What a rule sees of a block: the block, and the expressions in its sockets for a place with a
given precedence. -/
structure Compile.Site where
  block : Block
  plug : Key → Value → Drafting Expr

/-- How blocks of one type are compiled. -/
abbrev Compile.Rule := Compile.Site → Drafting Compile.Outcome

/-- The rules by type, and the names that no definition may have. -/
structure Compiler where
  rules : List (Key × Compile.Rule)
  reserved : List Key := Names.reserved.map .text

/-- A compiler with more names that no definition may have. -/
def Compiler.reserve (t : Compiler) (words : List String) : Compiler :=
  { t with reserved := t.reserved ++ words.map .text }

namespace Compile

/-- What a field holds. -/
def Site.field (s : Site) (name : Key) : Value :=
  (Entries.get? s.block.fields name).getD .null

/-! ### Shared parts -/

/-- The text that stands for the name of a definition in its lines. -/
def placeholder : String := "\x7bFUNCTION_NAME\x7d"

/-- The text of a definition. -/
def definitionText (name : String) (lines : List String) : String :=
  ("\n".intercalate lines).replace placeholder name

/-- A part of a compilation that needs no draft. -/
def ofExcept {α : Type} : Except Error α → Drafting α
  | .ok a => pure a
  | .error e => throw e

/-- Asks for a definition; the answer is the name to call it by, which has to be a text.  The first
definition asked for under a name is the one that counts, and the lines of others are not looked
at. -/
def define (wanted : Key) (lines : Except Error (List String)) (run : List Value → Emit Value) :
    Drafting String := do
  let d ← get
  match Entries.get? d.granted wanted with
  | some name => return name
  | none =>
    let name ← ofExcept (Value.ofKey (Names.distinct d.used wanted)).toText
    let text := definitionText name (← ofExcept lines)
    set { d with
      used := .text name :: d.used
      granted := d.granted ++ [(wanted, name)]
      definitions := d.definitions ++ [Subroutine.mk name text run] }
    return name

/-- Asks for an import. -/
def require (statement : Value) : Drafting Unit :=
  modify fun d =>
    if d.imports.any (·.alike statement) then d
    else { d with imports := d.imports ++ [statement] }

/-! ### Blocks -/

/-- How many values may be plugged into one another in a program. -/
def nestingLimit : Nat := 450

/-- The literal for an empty socket that takes a type. -/
def fallbackFor : Key → Option Value
  | .text "String" => some (.text "")
  | .text "Colour" => some (.text "#ffffff")
  | .text "Number" => some (.int 0)
  | _ => none

/-- The literal of the first of several types which has one. -/
def fallbackAmong : List Value → Except Error Value
  | [] => .ok .null
  | type :: types => do
    match fallbackFor (← type.toKey) with
    | some v => return v
    | none => fallbackAmong types

/-- The literal for an empty socket: that of the first type it takes which has one. -/
def fallback (w : Workspace) (b : Block) (name : Key) : Except Error Expr := do
  let d ← w.declarationOf b
  return .literal (← fallbackAmong (((d.socket? (.ofKey name)).bind (·.check)).getD []))

/-- The block in a socket, if there is one and it is turned on. -/
def occupant (w : Workspace) (b : Block) (name : Key) : Except Error (Option Block) := do
  let link := (Entries.get? b.inputs name).getD .null
  if link.isTruthy then return (w.find? (← link.toKey)).filter (·.isEnabled) else return none

/-- An operand, grouped if its place asks for it. -/
def grouped (outer : Value) (e : Expr) (inner : Value) : Except Error Expr := do
  return if ← Precedence.needsGroup outer inner then .group e else e

/-- What the rule for a block makes of it, with at most `n` levels of values plugged in. -/
def outcome (t : Compiler) (w : Workspace) : Nat → Block → Drafting Outcome
  | 0, _ => throw (.failure .tooDeep)
  | n + 1, b => do
    match Entries.get? t.rules (← ofExcept b.type.toKey) with
    | none => throw (.noRule b.type b.id)
    | some rule =>
      rule {
        block := b
        plug := fun name order => do
          match ← ofExcept (occupant w b name) with
          | none => ofExcept (fallback w b name)
          | some c => do
            match ← outcome t w n c with
            | .value e inner => ofExcept (grouped order e inner)
            | .ops _ => throw (.noRule c.type c.id) }

/-- The fragment of a block in a chain. -/
def fragment (t : Compiler) (w : Workspace) (b : Block) : Drafting Fragment := do
  match ← outcome t w nestingLimit b with
  | .value e _ => return { block := b.id, type := b.type, ops := [.expr e], isStatement := false }
  | .ops ops => return { block := b.id, type := b.type, ops }

/-- The fragments of the blocks of a chain that are turned on. -/
def chain (t : Compiler) (w : Workspace) (top : Block) : Drafting (List Fragment) := do
  let blocks ← ofExcept do w.chain (← top.id.toKey)
  ((blocks.map (·.2)).filter (·.isEnabled)).mapM (fragment t w)

/-- The chains of a workspace that contribute something. -/
def chains (t : Compiler) (w : Workspace) : Drafting (List (List Fragment)) := do
  return (← (← ofExcept w.tops).mapM (chain t w)).filter (!·.isEmpty)

end Compile

/-- The program of a workspace. -/
def Compiler.program (t : Compiler) (w : Workspace) : Except Error Program :=
  match Compile.chains t w { used := t.reserved } with
  | .ok chains d => .ok { chains, definitions := d.definitions, imports := d.imports }
  | .error e _ => .error e

end Blockwork
