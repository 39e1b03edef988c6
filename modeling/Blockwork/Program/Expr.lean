import Blockwork.Display
import Blockwork.Entries
import Blockwork.Number

/-!
# Expressions

The expressions of generated programs.  They are shown as text (`Expr.render`) and evaluated
directly (`Expr.eval`); evaluation may put out lines, which stay when it fails later.  A call may be
made by anything, but only by a text is there something to be found.
-/

namespace Blockwork

/-- An expression. -/
inductive Expr where
  | literal (v : Value)
  | concat (left right : Expr)
  | call (name : Value) (arguments : List Expr)
  | group (inner : Expr)

/-- Something that may put out lines and may fail; the lines put out stay. -/
abbrev Emit := EStateM Error (Array Line)

/-- A shared definition: its displayed text, and what a call of it does.  That depends on the operands
and on the lines put out before, and can only put out more lines or change those, answer or fail;
nothing of a workspace is within its reach, and it remembers nothing of earlier calls. -/
structure Subroutine where
  name : String
  text : String
  run : List Value → Emit Value

namespace Expr

mutual

/-- The text of an expression. -/
def render : Expr → String
  | .literal v => v.quoted
  | .concat l r => l.render ++ " + " ++ r.render
  | .call name args => name.display ++ "(" ++ ", ".intercalate (renderAll args) ++ ")"
  | .group e => "(" ++ e.render ++ ")"

/-- The texts of arguments. -/
def renderAll : List Expr → List String
  | [] => []
  | e :: es => e.render :: renderAll es

end

/-- Calls a definition by name. -/
def invoke (definitions : List Subroutine) (name : Value) (values : List Value) : Emit Value :=
  match name.key? with
  | none => throw (.failure .wrongType)
  | some k =>
    match definitions.find? (k == .text ·.name) with
    | some d => d.run values
    | none => throw (.unboundName k.display)

mutual

/-- The value of an expression; operands and arguments are evaluated from left to right. -/
def eval (definitions : List Subroutine) : Expr → Emit Value
  | .literal v => pure v
  | .concat l r => do
    let left ← eval definitions l
    let right ← eval definitions r
    return .text (left.display ++ right.display)
  | .call name args => do
    let values ← evalAll definitions args
    invoke definitions name values
  | .group e => eval definitions e

/-- The values of arguments. -/
def evalAll (definitions : List Subroutine) : List Expr → Emit (List Value)
  | [] => return []
  | e :: es => do
    let v ← eval definitions e
    return v :: (← evalAll definitions es)

end

end Expr

end Blockwork
