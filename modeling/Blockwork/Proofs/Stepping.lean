import Blockwork.Proofs.Scenes
import Blockwork.Run

/-!
# Steps of runs

The rules of outcomes for the parts of runs.  On a clock that stands at the generation of the run,
one step is followed by the others until a wait pauses it (`ends_advance_steady`); on a clock that
stands at another one the run ends before its next step and nothing is done (`ends_advance_stale`).
-/

namespace Blockwork

variable {t : Terms} {s : Scene Trace}

theorem Run.ends_emit {α : Type} {e : Emit α} {good : α → Scene Trace → Prop}
    {bad : Error → Scene Trace → Prop}
    (h : Ends e s.audience.lines
      (fun a lines => good a { s with audience := { s.audience with lines } })
      fun x lines => bad x { s with audience := { s.audience with lines } }) :
    Ends (emit e) s good bad := by
  unfold Ends emit at *
  cases he : e s.audience.lines with
  | ok a lines => rw [he] at h; exact h
  | error x lines => rw [he] at h; exact h

/-- A change of colour that is noted. -/
theorem Highlighter.ends_announce {h : Highlighter} {kind : Glow.Kind} {id colour : Value}
    {good : Unit → Scene Trace → Prop} {bad : Error → Scene Trace → Prop}
    (hg : ∀ s', s'.workspace = s.workspace → s'.audience.lines = s.audience.lines →
      s'.audience.naps = s.audience.naps → good () s') :
    Ends (h.announce kind id colour) s good bad :=
  Ends.bind (Ends.modify (Ends.modify (hg _ rfl rfl rfl)))

/-- A step that highlights a block does what the highlighter does, if there is one. -/
theorem Op.ends_highlight {id : Value} {good : Pause → Scene Trace → Prop}
    {bad : Error → Scene Trace → Prop} (hs : good .over s)
    (h : ∀ h ∈ t.highlighter, Ends (h.activate id) s (fun _ s' => good .over s') bad) :
    Ends ((Op.highlight id).perform t) s good bad := by
  unfold perform
  cases hh : t.highlighter with
  | none => exact Ends.bind (Ends.pure (Ends.pure hs))
  | some k => exact Ends.bind ((h k hh).mono (fun _ _ hs => Ends.pure hs) fun _ _ he => he)

/-- A step that restores a block does what the highlighter does, if there is one. -/
theorem Op.ends_restore {id : Value} {good : Pause → Scene Trace → Prop}
    {bad : Error → Scene Trace → Prop} (hs : good .over s)
    (h : ∀ h ∈ t.highlighter, Ends (h.restore id) s (fun _ s' => good .over s') bad) :
    Ends ((Op.restore id).perform t) s good bad := by
  unfold perform
  cases hh : t.highlighter with
  | none => exact Ends.bind (Ends.pure (Ends.pure hs))
  | some k => exact Ends.bind ((h k hh).mono (fun _ _ hs => Ends.pure hs) fun _ _ he => he)

/-- Whether a clock stands at a generation. -/
def Clock.Steady (clock : Clock) (generation : Value) : Prop :=
  ∀ newest ∈ clock, newest.same generation = true

/-- A clock without generations is not looked at. -/
theorem Clock.steady_nil (g : Value) : Clock.Steady [] g := List.forall_mem_nil _

theorem Clock.Steady.look {clock : Clock} {g : Value} (hc : clock.Steady g) :
    (∀ newest ∈ clock.look.1, newest.same g = true) ∧ clock.look.2.Steady g := by
  unfold Clock.look
  split
  · refine ⟨fun newest h => ?_, hc⟩
    cases h
  · refine ⟨fun newest h => ?_, hc⟩
    cases h
    exact hc _ List.mem_cons_self
  · rename_i first rest _
    refine ⟨fun newest h => ?_, fun newest h => hc newest (List.mem_cons_of_mem first h)⟩
    cases h
    exact hc _ List.mem_cons_self

/-- One step, which is followed by the others or pauses the run, unless it is superseded. -/
theorem ends_advance_cons {clock : Clock} {op : Op} {ops : List Op}
    {good : Progress → Scene Trace → Prop} {bad : Error → Scene Trace → Prop}
    (hb : ∀ newest ∈ clock.look.1, newest.same t.generation = false →
      bad (.superseded t.generation newest) s)
    (h : Ends (op.perform t) s (fun pause s' => if pause = .over
        then Ends (advance t clock.look.2 ops) s' good bad else good (.paused pause ops) s') bad) :
    Ends (advance t clock (op :: ops)) s good bad := by
  have rest {next : Pause → Run Progress} (hover : next .over = advance t clock.look.2 ops)
      (hyield : next .yielding = pure (.paused .yielding ops))
      (hlast : next .lasting = pure (.paused .lasting ops)) :
      Ends (op.perform t >>= next) s good bad := by
    refine Ends.bind (h.mono (fun pause s' hs => ?_) fun _ _ he => he)
    rcases pause with _ | _ | _
    · rw [hover]
      exact hs
    · rw [hyield]
      exact Ends.pure hs
    · rw [hlast]
      exact Ends.pure hs
  unfold advance
  dsimp only
  split
  · rename_i newest hlook
    cases hsame : newest.same t.generation with
    | true => exact rest rfl rfl rfl
    | false => exact Ends.bind (Ends.throw (hb newest hlook hsame))
  · exact rest rfl rfl rfl

/-- One step of a run that is not superseded. -/
theorem ends_advance_steady {clock : Clock} (hc : clock.Steady t.generation) {op : Op}
    {ops : List Op} {good : Progress → Scene Trace → Prop} {bad : Error → Scene Trace → Prop}
    (h : Ends (op.perform t) s (fun pause s' => if pause = .over
        then ∀ clock : Clock, clock.Steady t.generation → Ends (advance t clock ops) s' good bad
        else good (.paused pause ops) s') bad) :
    Ends (advance t clock (op :: ops)) s good bad := by
  refine ends_advance_cons (fun newest hn hs => ?_) (h.mono (fun pause s' hs => ?_)
    fun _ _ he => he)
  · rw [hc.look.1 newest hn] at hs
    cases hs
  · split
    · rename_i hpause
      rw [if_pos hpause] at hs
      exact hs _ hc.look.2
    · rename_i hpause
      rwa [if_neg hpause] at hs

/-- A run that is superseded does nothing, and comes to its end only without steps. -/
theorem ends_advance_stale {newest : Value} (h : newest.same t.generation = false) (ops : List Op) :
    Ends (advance t [newest] ops) s (fun p s' => (p = .finished ∧ ops = []) ∧ s' = s)
      fun e s' => e = .superseded t.generation newest ∧ s' = s := by
  cases ops with
  | nil => exact Ends.pure ⟨⟨rfl, rfl⟩, rfl⟩
  | cons op ops =>
      unfold advance Clock.look
      dsimp only
      rw [h]
      exact Ends.bind (Ends.throw ⟨rfl, rfl⟩)

end Blockwork
