import Blockwork.Session.Cycle

/-!
# Sessions

A session keeps a workspace stored and its program running: every change but one of the view is
stored, and every change outside of a drag starts a new cycle.  Its start reads the stored workspace
back and runs it once.
-/

namespace Blockwork

namespace Session

/-- Whether an error means that a workspace could not be stored. -/
def isSaveFailure : Error → Bool
  | .failure f => f.isStorage || f.isDatabase || f = .tooDeep
  | _ => false

/-- Stores the workspace; that this is not possible is noted in the log. -/
def save (number : Nat) : Act Desk Unit := do
  if let some s ← Act.session? number then
    match ← Act.attempt s.archive.save with
    | .ok _ => pure ()
    | .error e =>
      if isSaveFailure e then
        Act.note .error .orchestrator ("Failed to save workspace: " ++ e.display)
      else throw e

/-- What a session does on a change. -/
def hear (number : Nat) (c : Change) : Act Desk Unit := do
  if c.warrantsSave then save number
  if c.warrantsCycle then
    let _ ← runCode number

end Session

namespace Desk

/-- Adds to what has been heard. -/
def note (seat : Nat) (c : Change) : Act Desk Unit :=
  Act.arrange fun d => { d with heard := d.heard.push (seat, c) }

/-- Performs edits one after the other. -/
def performAll (a : Audience Desk) : List (Edit (List Notice)) → Act Desk Unit
  | [] => pure ()
  | e :: es => do
    Act.perform a e
    performAll a es

/-- Tells listeners of a change, one after the other; an error keeps it from those who come later.
The edits with which guests answer are told to `a`. -/
def tellEach (a : Audience Desk) (c : Change) : List Listener → Act Desk Unit
  | [] => pure ()
  | .guest g :: ls => do
    note g.seat c
    performAll a (g.respond c (← get).workspace)
    tellEach a c ls
  | .session number :: ls => do
    Session.hear number c
    tellEach a c ls

/-- The listeners of the desk, where at most `n` times an edit may be the answer to another one. -/
def hearing : Nat → Audience Desk
  | 0 => ⟨fun _ => throw (.failure .tooDeep)⟩
  | n + 1 => ⟨fun c => do tellEach (hearing n) c (← get).audience.listeners⟩

/-- The listeners of the desk. -/
def audience : Audience Desk :=
  ⟨fun c => do (hearing (← get).audience.answerLimit).hear c⟩

end Desk

namespace Session

/-- Starts a session: from now on it hears of changes; the stored workspace is read back and run
once. -/
def start (number : Nat) : Act Desk Bool := do
  if !(← get).audience.loop then throw (.misconfiguration .noLoop)
  if !(← get).audience.isAttached number then Act.arrange (·.seat (.session number))
  let some s ← Act.session? number | return false
  let restored ← s.archive.load Desk.audience
  Act.note .info .orchestrator
    ("Starting session (" ++ (if restored then "restored" else "empty") ++ " workspace)")
  runCode number

/-- Stops a session: it hears of no more changes; its cycles go on. -/
def stop (number : Nat) : Act Desk Unit := Act.arrange (·.unseat (Desk.isSession number))

end Session

end Blockwork
