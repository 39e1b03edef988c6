import Blockwork.Program.Expr
import Blockwork.Scene

/-!
# Traces

What a running program lets others see: the lines it puts out, the changes of colour by which blocks
are highlighted, and the waits it asks for.  A run is an action on a scene whose audience keeps a
trace.
-/

namespace Blockwork

/-- What a change of colour is for. -/
inductive Glow.Kind where
  | activate
  | restore
  deriving DecidableEq, Repr

/-- The name of a kind. -/
def Glow.Kind.name : Glow.Kind → String
  | .activate => "activate"
  | .restore => "restore"

/-- A change of the colour of one block. -/
structure Glow where
  kind : Glow.Kind
  block : Value
  colour : Value
  deriving DecidableEq

/-- A wait that a program asks for, with the number of lines put out until then and, in a run that
is watched, the blocks that are highlighted meanwhile. -/
structure Nap where
  seconds : Binary64
  lines : Nat
  active : List Value
  deriving DecidableEq

/-- What is seen of a run. -/
structure Trace where
  lines : Array Line := #[]
  glows : Array Glow := #[]
  naps : Array Nap := #[]

/-- A part of a run. -/
abbrev Run := Act Trace

namespace Run

/-- Changes the trace. -/
def record (f : Trace → Trace) : Run Unit :=
  modify fun s => { s with audience := f s.audience }

/-- Something that may put out lines, with its lines added to the trace. -/
def emit {α : Type} (e : Emit α) : Run α := fun s =>
  match e s.audience.lines with
  | .ok a lines => .ok a { s with audience := { s.audience with lines } }
  | .error x lines => .error x { s with audience := { s.audience with lines } }
end Run

end Blockwork
