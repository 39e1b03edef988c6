import Blockwork.Archive
import Blockwork.Run
import Blockwork.Compile.Basic

/-!
# Desks

Everybody and everything around a workspace: those who listen to its changes, the sessions that run
it, and the cycles that are under way.  All cycles take turns on one event loop: those that can go
on stand in a queue, those that wait for somebody to end their wait stand beside it.
-/

namespace Blockwork

/-- One run of the program of a session, as far as it is still to come. -/
structure Cycle where
  session : Nat
  generation : Nat
  program : Program
  pending : List Op
  /-- The error with which its wait has ended. -/
  broken : Option Error := none

/-- A session: how the program of the workspace is made, run and stored, and what has become of it
so far. -/
structure Session where
  /-- The number of the workspace that it runs, where there are several. -/
  home : Nat := 0
  settings : Settings
  archive : Archive
  compiler : Compiler
  highlighter : Highlighter
  pacing : Pacing
  /-- The number of the newest cycle. -/
  generation : Nat := 0
  /-- The text of the newest program. -/
  lastText : String := ""
  /-- The display of the program. -/
  code : TextDisplay := {}
  /-- The display of what the program puts out. -/
  output : OutputDisplay := {}
  /-- The newest error of a cycle. -/
  fault : Option Error := none
  /-- The error by which a cycle failed to restore the highlights after an error of its own, as long
  as somebody may want to know. -/
  mishap : Option Error := none
  results : List Completion := []

/-- Somebody who hears of changes and may answer them with edits. -/
structure Guest where
  seat : Nat
  respond : Change → Workspace → List (Edit (List Notice)) := fun _ _ => []

/-- One who is told of changes. -/
inductive Listener where
  | guest (g : Guest)
  | session (number : Nat)

/-- What is around a workspace. -/
structure Desk where
  /-- Those who are told of changes, in this order. -/
  listeners : List Listener := []
  /-- What guests have heard, by their seats. -/
  heard : Array (Nat × Change) := #[]
  sessions : List Session := []
  /-- Whether there is an event loop. -/
  loop : Bool := true
  /-- The cycles that can go on, in the order of their turns. -/
  ready : List Cycle := []
  /-- The cycles in a wait that lasts, the oldest wait first. -/
  waiting : List Cycle := []
  glows : Array Glow := #[]
  naps : Array Nap := #[]
  /-- How often an edit may be the answer to another one. -/
  answerLimit : Nat := 100

namespace Desk

/-- Whether a listener is the session with a number. -/
def isSession (number : Nat) : Listener → Bool
  | .session n => n = number
  | .guest _ => false

/-- Whether a listener is the guest in a seat. -/
def isGuest (seat : Nat) : Listener → Bool
  | .guest g => g.seat = seat
  | .session _ => false

/-- The desk with one more listener. -/
def seat (d : Desk) (l : Listener) : Desk := { d with listeners := d.listeners ++ [l] }

/-- The desk without the listeners that a test picks. -/
def unseat (d : Desk) (p : Listener → Bool) : Desk :=
  { d with listeners := d.listeners.filter (!p ·) }

/-- Whether a session hears of changes. -/
def isAttached (d : Desk) (number : Nat) : Bool := d.listeners.any (isSession number)

/-- The session with a number changed. -/
def updateSession (d : Desk) (number : Nat) (f : Session → Session) : Desk :=
  { d with sessions := d.sessions.modify number f }

/-- How many cycles of a session are under way. -/
def inFlight (d : Desk) (number : Nat) : Nat :=
  ((d.ready ++ d.waiting).filter (·.session = number)).length

/-- The lines that the program of a session has put out. -/
def linesOf (d : Desk) (number : Nat) : Array Line :=
  (d.sessions[number]?.map (·.output.lines)).getD #[]

/-- The trace that a cycle of a session adds to. -/
def trace (d : Desk) (number : Nat) : Trace :=
  { lines := d.linesOf number, glows := d.glows, naps := d.naps }

/-- The desk with the trace of a session replaced. -/
def withTrace (d : Desk) (number : Nat) (t : Trace) : Desk :=
  { d.updateSession number fun s => { s with output := { s.output with lines := t.lines } } with
    glows := t.glows
    naps := t.naps }

end Desk

namespace Act

/-- A part of a run of a session. -/
def traced {α : Type} (number : Nat) (r : Run α) : Act Desk α := fun s =>
  match r { s with audience := s.audience.trace number } with
  | .ok a t => .ok a { t with audience := s.audience.withTrace number t.audience }
  | .error e t => .error e { t with audience := s.audience.withTrace number t.audience }

/-- A run that is no part of a session; the answer is its outcome and what is seen of it. -/
def apart {α : Type} (r : Run α) : Act Desk (Except Error α × Trace) := fun s =>
  let back (t : Scene Trace) : Scene Desk :=
    { t with audience := { s.audience with glows := s.audience.glows ++ t.audience.glows } }
  match r { s with audience := {} } with
  | .ok a t => .ok (.ok a, t.audience) (back t)
  | .error e t => .ok (.error e, t.audience) (back t)

/-- Changes the desk. -/
def arrange (f : Desk → Desk) : Act Desk Unit :=
  modify fun s => { s with audience := f s.audience }

/-- The session with a number. -/
def session? (number : Nat) : Act Desk (Option Session) := do
  return (← get).audience.sessions[number]?

end Act

end Blockwork
