import Blockwork.Session.Basic

/-!
# Studios

Several workspaces around one desk.  One of them is in front, on the scene; the others are aside,
each with those who listen to it.  A session goes on with the workspace that it was made for, in
front or not, and the cycles of all sessions take turns on the one event loop.  The loop goes in
rounds: in each round the cycles that could go on at its beginning take one turn.
-/

namespace Blockwork

/-- A workspace that is not in front, with those who listen to it. -/
structure Aside where
  workspace : Workspace
  listeners : List Listener

/-- Workspaces around one desk. -/
structure Studio where
  /-- The workspace in front, with the desk. -/
  scene : Scene Desk
  /-- The number of the workspace in front. -/
  front : Nat := 0
  /-- The other workspaces by number. -/
  aside : List (Nat × Aside) := []
  /-- How many cycles have their turn of this round of the loop still to come. -/
  due : Nat := 0

namespace Studio

/-- What is on and around the desk. -/
def desk (s : Studio) : Desk := s.scene.audience

/-- The studio with the workspace in front put aside and another one in its place. -/
def present (s : Studio) (number : Nat) (there : Aside) : Studio :=
  let w := s.scene.workspace
  { s with
    front := number
    aside := Entries.put (Entries.erase s.aside number) s.front ⟨w, s.desk.listeners⟩
    scene := { s.scene with
      workspace := { there.workspace with created := max there.workspace.created w.created }
      audience := { s.desk with listeners := there.listeners } } }

/-- The studio with the workspace with a number in front, if there is one aside. -/
def turnTo (s : Studio) (number : Nat) : Studio :=
  match Entries.get? s.aside number with
  | some there => s.present number there
  | none => s

/-- The studio with a new workspace of the same vocabulary in front. -/
def extend (s : Studio) (listeners : List Listener) : Studio :=
  s.present (s.aside.length + 1) ⟨Workspace.new s.scene.workspace.vocabulary 0, listeners⟩

/-- The number of the workspace that a session runs. -/
def homeOf (s : Studio) (session : Nat) : Nat :=
  (s.desk.sessions[session]?.map (·.home)).getD s.front

/-- An action in a studio. -/
abbrev Action := EStateM Error Studio

/-- An action on the workspace with a number. -/
def visit {α : Type} (number : Nat) (a : Act Desk α) : Action α := fun s =>
  let there := s.turnTo number
  match a there.scene with
  | .ok x scene => .ok x ({ there with scene }.turnTo s.front)
  | .error e scene => .error e ({ there with scene }.turnTo s.front)

/-- An action on the workspace in front. -/
def perform {α : Type} (a : Act Desk α) : Action α := fun s =>
  match a s.scene with
  | .ok x scene => .ok x { s with scene }
  | .error e scene => .error e { s with scene }

/-- An action on the workspace that a session runs. -/
def atHome {α : Type} (session : Nat) (a : Act Desk α) : Action α := do
  visit ((← get).homeOf session) a

/-! ### The loop -/

/-- One turn of the event loop; with it a new round begins, if no turns of the last one are to
come. -/
def turn : Action Unit := do
  match (← get).desk.ready with
  | [] => pure ()
  | c :: ready =>
    modify fun s => { s with due := (if s.due = 0 then ready.length + 1 else s.due) - 1 }
    atHome c.session Session.turn

/-- So many turns of the event loop, or as many as there are. -/
def turns : Nat → Action Unit
  | 0 => pure ()
  | n + 1 => do
    if (← get).desk.ready.isEmpty then return
    turn
    turns n

/-- An upper bound of the turns that cycles take to their ends. -/
def turnsOf (cycles : List Cycle) : Nat :=
  cycles.foldr (fun c n => c.pending.length + 1 + n) 0

/-- Lets the cycles that are left in this round take their turns. -/
def finishRound : Action Unit := do turns (← get).due

/-- Lets each cycle that can go on take one turn. -/
def sweep : Action Unit := do turns (← get).desk.ready.length

/-- So many sweeps. -/
def sweeps : Nat → Action Unit
  | 0 => pure ()
  | n + 1 => do
    sweep
    sweeps n

/-- Lets the cycles run until none can go on. -/
def settle : Action Unit := do turns (turnsOf (← get).desk.ready)

/-- Ends the `n` oldest waits. -/
def release : Nat → Action Unit
  | 0 => pure ()
  | n + 1 => do
    perform (Session.wake 0)
    release n

/-- At most `n` times lets the cycles run until none can go on, and ends all waits then. -/
def drainWithin : Nat → Action Unit
  | 0 => pure ()
  | n + 1 => do
    settle
    if (← get).desk.waiting.isEmpty then return
    release (← get).desk.waiting.length
    drainWithin n

/-- Lets the cycles run, ending all waits, until none is under way. -/
def drain : Action Unit := do
  let d := (← get).desk
  drainWithin (turnsOf d.ready + turnsOf d.waiting + 1)

/-- At most `n` turns, until no cycle of a session is under way. -/
def turnsFor (session : Nat) : Nat → Action Unit
  | 0 => pure ()
  | n + 1 => do
    if (← get).desk.inFlight session = 0 then return
    turn
    turnsFor session n

/-- Lets the cycles run until none of a session is under way. -/
def runFor (session : Nat) : Action Unit := do
  turnsFor session (turnsOf (← get).desk.ready)

/-- An action that fails in the end, if a session has failed to restore highlights meanwhile. -/
def watching (session : Nat) (a : Action Unit) : Action Unit := do
  perform (Act.arrange (·.updateSession session ({ · with mishap := none })))
  a
  if let some e := (← get).desk.sessions[session]?.bind (·.mishap) then throw e

/-- Waits on the loop until no cycle of a session is under way.  The end of the last one is noticed
after a sweep and comes to who waits after another one. -/
def awaitInside (session : Nat) : Action Unit := watching session do
  if (← get).desk.inFlight session = 0 then return
  runFor session
  sweeps 2

/-- Waits outside of the loop until no cycle of a session is under way.  Who waits enters the loop
for that, and the loop ends with the round after the one in which he has got word. -/
def awaitOutside (session : Nat) : Action Unit := watching session do
  if (← get).desk.inFlight session = 0 then sweeps 2
  else
    runFor session
    finishRound
    sweeps 3

/-- Ends the event loop with the round after this one; the cycles that are under way then are
given up. -/
def leave : Action Unit := do
  finishRound
  sweep
  perform (Act.arrange ({ · with ready := [], waiting := [], loop := false }))

end Studio

end Blockwork
