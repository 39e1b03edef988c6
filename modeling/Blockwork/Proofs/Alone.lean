import Blockwork.Proofs.Stepping
import Blockwork.Session.Cycle

/-!
# Runs by themselves

A run that nobody interferes with goes on, after each wait that pauses it, where it paused: with the
steps that were left, in the scene that it left (`through`).  A program that is run at once is such a
run (`Program.run_eq_through`), and a cycle of a session is one from wait to wait
(`Session.through_concat`).  A clock that stands at the generation of the run makes no
difference (`advance_eq`), so one step takes such a run on, whether it pauses or not, or it ends
there (`through_step`).
-/

namespace Blockwork

/-- What an action comes to from a state, apart from the state in which it ends. -/
def answerOf {ε σ α : Type} (x : EStateM ε σ α) (s : σ) : Except ε α :=
  match x s with
  | .ok a _ => .ok a
  | .error e _ => .error e

/-- Runs steps by themselves.  The waits that pause the run end one after the other, each with an
error or without one; at one that has not ended the run stands still. -/
def through (t : Terms) (clock : Clock) : List (Option Error) → List Op → Run Progress
  | [], ops => advance t clock ops
  | broken :: waits, ops => do
    match ← advance t clock ops with
    | .finished => return .finished
    | .paused _ pending =>
      match broken with
      | some e => throw e
      | none => through t clock waits pending

section

variable {t : Terms} {clock : Clock} {op : Op} {ops : List Op} {pause : Pause} {e : Error}
  {waits : List (Option Error)} {s s' : Scene Trace}

theorem advance_off (op : Op) (ops : List Op) : advance t [] (op :: ops) = (do
    match ← op.perform t with
    | .over => advance t [] ops
    | pause => return .paused pause ops) := rfl

/-- A clock that stands at the generation of the run is as good as none. -/
theorem advance_eq (hc : clock.Steady t.generation) : advance t clock ops = advance t [] ops := by
  induction ops generalizing clock with
  | nil => rfl
  | cons op ops ih =>
      rw [advance_off, ← ih hc.look.2]
      conv => lhs; unfold advance
      dsimp only
      split
      · rename_i newest hlook
        rw [hc.look.1 newest hlook]
        rfl
      · rfl

theorem advance_cons (hc : clock.Steady t.generation) : advance t clock (op :: ops) = (do
    match ← op.perform t with
    | .over => advance t clock ops
    | pause => return .paused pause ops) := by
  rw [advance_eq hc, advance_eq hc, advance_off]

@[simp] theorem through_nil : through t clock waits [] s = .ok .finished s := by
  cases waits <;> rfl

/-- How a run goes on after a step that was over at once or paused it. -/
def onward (t : Terms) (clock : Clock) (waits : List (Option Error)) (ops : List Op)
    (pause : Pause) : Run Progress :=
  if pause = .over then through t clock waits ops
  else
    match waits with
    | [] => return .paused pause ops
    | some e :: _ => throw e
    | none :: waits => through t clock waits ops

/-- **A run takes one step, and goes on as that step lets it.** -/
theorem through_cons (hc : clock.Steady t.generation) :
    through t clock waits (op :: ops) = op.perform t >>= onward t clock waits ops := by
  cases waits with
  | nil =>
      rw [through, advance_cons hc]
      refine bind_congr fun pause => ?_
      cases pause <;> rfl
  | cons broken waits =>
      rw [through, advance_cons hc, bind_assoc]
      refine bind_congr fun pause => ?_
      cases pause <;> cases broken <;> rfl

/-- One step either takes the run on, with the waits that are left then, or is where it stops. -/
theorem through_step (hc : clock.Steady t.generation) (op : Op) (waits : List (Option Error))
    (s : Scene Trace) :
    (∃ waits' s' pause, op.perform t s = .ok pause s' ∧
      ∀ ops, through t clock waits (op :: ops) s = through t clock waits' ops s') ∨
    ∀ ops, answerOf (through t clock waits (op :: ops)) s ≠ .ok .finished ∧
      stateAfter (through t clock waits (op :: ops)) s = stateAfter (op.perform t) s := by
  unfold answerOf stateAfter
  simp only [through_cons hc, Bind.bind, EStateM.bind]
  cases op.perform t s with
  | error e s' => exact .inr fun ops => ⟨by rintro ⟨⟩, rfl⟩
  | ok pause s' =>
      by_cases hp : pause = .over
      · subst hp
        exact .inl ⟨waits, s', _, rfl, fun ops => rfl⟩
      · simp only [onward, if_neg hp]
        rcases waits with _ | ⟨_ | e, waits⟩
        · exact .inr fun ops => ⟨by rintro ⟨⟩, rfl⟩
        · exact .inl ⟨waits, s', _, rfl, fun ops => rfl⟩
        · exact .inr fun ops => ⟨by rintro ⟨⟩, rfl⟩

/-- Where steps have been run to their end, the run of more steps goes on with those. -/
theorem exists_through_append (hc : clock.Steady t.generation) {ran : List Op}
    (h : answerOf (through t clock waits ran) s = .ok .finished) :
    ∃ waits', ∀ rest, through t clock waits (ran ++ rest) s =
      through t clock waits' rest (stateAfter (through t clock waits ran) s) := by
  induction ran generalizing waits s with
  | nil => exact ⟨waits, fun rest => by rw [List.nil_append, stateAfter, through_nil]⟩
  | cons op ran ih =>
      obtain ⟨waits', s', _, -, hgo⟩ | hstop := through_step hc op waits s
      · rw [answerOf, hgo] at h
        obtain ⟨waits'', hrest⟩ := ih h
        refine ⟨waits'', fun rest => ?_⟩
        rw [List.cons_append, hgo, hrest, stateAfter, stateAfter, hgo]
      · exact absurd h (hstop ran).1

/-! ### Programs and cycles -/

/-- A program that is run without pausing is run by itself. -/
theorem Program.run_eq_through (h : Option Highlighter) (generation : Value) (clock : Clock)
    (p : Program) : p.run h generation clock = (do
      let _ ← through { highlighter := h, definitions := p.definitions, generation
                        watched := h.isSome } clock [] p.ops
      return ⟨generation, p.ops.length⟩) := rfl

/-- **A cycle goes on from each of its waits as a run by itself does**, while its session stays as it
is. -/
theorem Session.through_concat (s : Session) (c : Cycle) (waits : List (Option Error))
    (broken : Option Error) (ops : List Op) :
    through (s.terms c) s.clock (waits ++ [broken]) ops = (do
      match ← through (s.terms c) s.clock waits ops with
      | .finished => return .finished
      | .paused _ pending => s.proceed { c with pending, broken }) := by
  -- along the waits: each hands the steps that are left to the run after it
  induction waits generalizing ops with
  | nil =>
      rw [List.nil_append]
      unfold through
      refine bind_congr fun progress => ?_
      cases progress with
      | finished => rfl
      | paused _ pending => cases broken <;> rfl
  | cons broken' waits ih =>
      rw [List.cons_append]
      unfold through
      rw [bind_assoc]
      refine bind_congr fun progress => ?_
      cases progress with
      | finished => rfl
      | paused _ pending =>
          cases broken' with
          | some e => rfl
          | none => exact ih pending

end

end Blockwork
