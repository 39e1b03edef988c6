import Blockwork.Program.Expr
import Blockwork.Value.Parts

/-!
# Programs

A generated program: for each chain the fragments of its blocks, and the definitions and imports
that they share.  The text of a program is for display; it is never read back.
-/

namespace Blockwork

/-- A step of a program. -/
inductive Op where
  | call (name : Value) (arguments : List Expr)
  | expr (e : Expr)
  | sleep (seconds : Expr)
  | highlight (id : Value)
  | restore (id : Value)

/-- The steps that one block contributes. -/
structure Fragment where
  block : Value
  type : Value
  ops : List Op := []
  isStatement : Bool := true

/-- A program. -/
structure Program where
  chains : List (List Fragment) := []
  definitions : List Subroutine := []
  imports : List Value := []

/-- The name that the step of highlighting a block is shown with. -/
def highlightName : String := "highlight_block"

/-- The name that the step of restoring a block is shown with. -/
def restoreName : String := "restore_block"

/-- The line of a step. -/
def Op.render : Op → String
  | .call name args => (Expr.call name args).render ++ "\n"
  | .expr e => e.render ++ "\n"
  | .sleep e => "await asyncio.sleep(" ++ e.render ++ ")\n"
  | .highlight id => highlightName ++ "(" ++ id.quoted ++ ")\n"
  | .restore id => restoreName ++ "(" ++ id.quoted ++ ")\n"

/-- The lines of a fragment. -/
def Fragment.render (f : Fragment) : String := String.join (f.ops.map Op.render)

namespace Program

/-- The fragments of all chains. -/
def fragments (p : Program) : List Fragment := p.chains.flatten

/-- The steps of all fragments, in the order in which they are run. -/
def ops (p : Program) : List Op := p.fragments.flatMap (·.ops)

/-- The text of a chain. -/
def renderChain (fs : List Fragment) : String := String.join (fs.map Fragment.render)

/-- The sections of the text: imports, which have to be texts, definitions, and the chains with an
empty line between them. -/
def sections (p : Program) : Except Error (List String) := do
  let imports ← p.imports.mapM Value.toText
  let body := "\n".intercalate (p.chains.map renderChain)
  return (if imports.isEmpty then [] else ["\n".intercalate imports ++ "\n"]) ++
    p.definitions.map (·.text ++ "\n") ++
    if body.isEmpty then [] else [body]

/-- The text of a program. -/
def render (p : Program) : Except Error String := return "\n".intercalate (← p.sections)

end Program

end Blockwork
