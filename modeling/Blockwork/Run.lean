import Blockwork.Highlight

/-!
# Runs

A program is run one step at a time.  Before each step the newest generation is looked up on a
clock; a program of another generation ends there (`advance`).  At a wait a run may pause, and go on
later with the steps that are left.
-/

namespace Blockwork

/-- How a wait goes: it is over at once, it lets others go first, or it lasts until somebody ends
it. -/
inductive Pause where
  | over
  | yielding
  | lasting
  deriving DecidableEq, Repr

/-- A wait that is asked for. -/
structure Wait where
  seconds : Binary64
  /-- How many waits have been asked for before. -/
  earlier : Nat

/-- How waits go; a wait may fail. -/
abbrev Pacing := Wait → Except Error Pause

/-- The newest generation each time it is looked up, the last one from then on; a clock without
generations is not looked at. -/
abbrev Clock := List Value

/-- One look at the clock. -/
def Clock.look : Clock → Option Value × Clock
  | [] => (none, [])
  | [g] => (some g, [g])
  | g :: clock => (some g, clock)

/-- What a run goes by. -/
structure Terms where
  highlighter : Option Highlighter := none
  definitions : List Subroutine := []
  pacing : Pacing := fun _ => .ok .over
  generation : Value := .int 0
  /-- Whether the blocks that are highlighted are noted at each wait. -/
  watched : Bool := false

/-- A wait of so many seconds. -/
def Terms.nap (t : Terms) (seconds : Binary64) : Run Pause := do
  let s ← get
  let active := if t.watched then s.workspace.highlighted else []
  Run.record fun r => { r with naps := r.naps.push ⟨seconds, r.lines.size, active⟩ }
  Act.ofExcept (t.pacing ⟨seconds, s.audience.naps.size⟩)

/-- Runs one step. -/
def Op.perform (t : Terms) : Op → Run Pause
  | .call name args => do
    let _ ← Run.emit (Expr.eval t.definitions (.call name args))
    return .over
  | .expr e => do
    let _ ← Run.emit (Expr.eval t.definitions e)
    return .over
  | .sleep e => do
    let v ← Run.emit (Expr.eval t.definitions e)
    t.nap (← Act.ofExcept v.toFloat)
  | .highlight id => do
    if let some h := t.highlighter then
      let _ ← h.activate id
    return .over
  | .restore id => do
    if let some h := t.highlighter then
      let _ ← h.restore id
    return .over

/-- How far a run has come: to its end, or to a wait with the steps that are left. -/
inductive Progress where
  | finished
  | paused (pause : Pause) (pending : List Op)

/-- Runs steps to their end or to a wait that is not over at once. -/
def advance (t : Terms) : Clock → List Op → Run Progress
  | _, [] => return .finished
  | clock, op :: pending => do
    let (newest, clock) := clock.look
    if let some current := newest then
      if !current.same t.generation then throw (.superseded t.generation current)
    match ← op.perform t with
    | .over => advance t clock pending
    | pause => return .paused pause pending

/-- A run that came to its end. -/
structure Completion where
  generation : Value
  /-- How many steps were run. -/
  executed : Nat
  deriving DecidableEq

/-- A completed run in running text, with the time that it took. -/
def Completion.display (c : Completion) (seconds : String) : String :=
  "cycle " ++ c.generation.display ++ ": " ++ Decimal.integer c.executed ++
    " operations in " ++ seconds ++ "s"

/-- Runs a program to its end, without pausing. -/
def Program.run (highlighter : Option Highlighter) (generation : Value) (clock : Clock)
    (p : Program) : Run Completion := do
  let watched := highlighter.isSome
  let _ ← advance { highlighter, definitions := p.definitions, generation, watched } clock p.ops
  return ⟨generation, p.ops.length⟩

end Blockwork
