import Blockwork.Session.Desk

/-!
# Cycles

A cycle makes the program of the workspace, shows it, and runs it on the event loop.  Every cycle
has a number.  When newer cycles supersede older ones, a new cycle restores all highlights, and an
older one ends before its next step.  An error ends the cycle in which it arises and no other.
-/

namespace Blockwork.Session

/-! ### Starting -/

/-- Whether an error only means that the program cannot be made. -/
def isUncompilable : Error → Bool
  | .noRule .. => true
  | .failure f => f = .tooDeep
  | _ => false

/-- Notes an error of the cycle with a number in the log. -/
def noteError (text : String) (generation : Nat) : Act Desk Unit :=
  Act.note .error .orchestrator (text ++ " (cycle " ++ Decimal.integer generation ++ ")")

/-- The program of a cycle with its text. -/
def prepare (t : Compiler) (w : Workspace) : Except Error (Program × String) := do
  let p := (← t.program w).instrument
  return (p, ← p.render)

/-- Shows the program of a cycle and lets it stand in line. -/
def enqueue (number generation : Nat) (p : Program) (text : String) : Act Desk Unit :=
  Act.arrange fun d =>
    { d.updateSession number fun s =>
        { s with
          lastText := text
          code := s.code.write (.text text)
          output := s.output.clear } with
      ready := d.ready ++ [{ session := number, generation, program := p, pending := p.ops }] }

/-- Starts a new cycle; whether its program could be made. -/
def runCode (number : Nat) : Act Desk Bool := do
  if !(← get).audience.loop then throw (.misconfiguration .noLoop)
  let some s ← Act.session? number | return false
  let generation := s.generation + 1
  Act.arrange (·.updateSession number ({ · with generation }))
  if s.settings.supersedes then
    let _ ← Act.traced number s.highlighter.restoreAll
  match prepare s.compiler (← get).workspace with
  | .ok (p, text) =>
    enqueue number generation p text
    return true
  | .error e =>
    if isUncompilable e then
      noteError "Code generation failed" generation
      return false
    else throw e

/-! ### Running -/

/-- What a cycle of a session goes by. -/
def terms (s : Session) (c : Cycle) : Terms where
  highlighter := some s.highlighter
  definitions := c.program.definitions
  pacing := s.pacing
  generation := .int c.generation

/-- The clock by which the cycles of a session end. -/
def clock (s : Session) : Clock := if s.settings.supersedes then [.int s.generation] else []

/-- A cycle has ended with an error.  The newest one restores all highlights then; an error of that
is kept for those who wait. -/
def fail (c : Cycle) (e : Error) : Act Desk Unit := do
  Act.arrange (·.updateSession c.session ({ · with fault := some e }))
  noteError "Error in generated code" c.generation
  if let some s ← Act.session? c.session then
    if s.settings.supersedes && c.generation = s.generation then
      match ← Act.attempt (Act.traced c.session s.highlighter.restoreAll) with
      | .ok _ => pure ()
      | .error mishap =>
        Act.arrange (·.updateSession c.session fun s => { s with mishap := s.mishap <|> mishap })

/-- A cycle has come to its end. -/
def complete (c : Cycle) : Act Desk Unit :=
  Act.arrange (·.updateSession c.session fun s =>
    { s with results := s.results ++ [⟨.int c.generation, c.program.ops.length⟩] })

/-- Goes on with a cycle; where its wait has ended with an error it ends with that. -/
def proceed (s : Session) (c : Cycle) : Run Progress :=
  match c.broken with
  | some e => throw e
  | none => advance (terms s c) (clock s) c.pending

/-- Runs a cycle until it pauses or ends. -/
def resume (c : Cycle) : Act Desk Unit := do
  if let some s ← Act.session? c.session then
    match ← Act.attempt (Act.traced c.session (proceed s c)) with
    | .ok .finished => complete c
    | .ok (.paused .lasting pending) =>
      Act.arrange fun d => { d with waiting := d.waiting ++ [{ c with pending }] }
    | .ok (.paused _ pending) =>
      Act.arrange fun d => { d with ready := d.ready ++ [{ c with pending }] }
    | .error (.superseded ..) => pure ()
    | .error e => fail c e

/-- One turn of the event loop. -/
def turn : Act Desk Unit := do
  match (← get).audience.ready with
  | [] => pure ()
  | c :: ready =>
    Act.arrange ({ · with ready })
    resume c

/-- Ends the wait of the cycle at a place among those that wait, with an error or without one. -/
def wake (place : Nat) (broken : Option Error := none) : Act Desk Unit :=
  Act.arrange fun d =>
    { d with
      ready := d.ready ++ (d.waiting[place]?.map ({ · with broken })).toList
      waiting := d.waiting.eraseIdx place }

end Blockwork.Session
