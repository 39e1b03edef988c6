import Blockwork.Proofs.Faults
import Blockwork.Proofs.Stepping

/-!
# Lines of runs

The lines that steps put out (`speak`), whatever workspace they run on, however often they pause
and whenever they go on: a run that comes to a wait has put out the lines of the steps until then
(`ends_advance_lines`), and a run by itself those of all steps (`Program.lines_of_run`).
-/

namespace Blockwork

/-- What a step does to the lines. -/
def Op.speak (definitions : List Subroutine) : Op → Emit Unit
  | .call name args => do let _ ← Expr.eval definitions (.call name args)
  | .expr e => do let _ ← Expr.eval definitions e
  | .sleep e => do
    let v ← Expr.eval definitions e
    match v.toFloat with
    | .ok _ => return
    | .error x => throw x
  | .highlight _ | .restore _ => return

/-- What steps do to the lines, one after the other. -/
def speak (definitions : List Subroutine) : List Op → Emit Unit
  | [] => return
  | op :: ops => do
    op.speak definitions
    speak definitions ops

section

variable {definitions : List Subroutine} {ops rest : List Op} {lines : Array Line}

theorem speak_append (ops rest : List Op) : speak definitions (ops ++ rest) = (do
    speak definitions ops
    speak definitions rest) := by
  induction ops with
  | nil => rfl
  | cons op ops ih => rw [List.cons_append, speak, ih, speak, bind_assoc]

/-- What the steps that come after others do to the lines. -/
theorem speak_append_of_ok {l m : Array Line} (h : speak definitions ops l = .ok () m) :
    speak definitions (ops ++ rest) l = speak definitions rest m := by
  rw [speak_append]
  simp only [Bind.bind, EStateM.bind, h]

/-- Definitions that add to the lines let steps add to the lines. -/
theorem prefix_speak (h : ∀ d ∈ definitions, d.Appends) (ops : List Op) (lines : Array Line) :
    lines.toList <+: (stateAfter (speak definitions ops) lines).toList := by
  let P (l : Array Line) := lines.toList <+: l.toList
  have evaluated (e : Expr) : Keeps P (Expr.eval definitions e) := fun l hl =>
    Ends.of_stateAfter (P := P) (hl.trans (Expr.prefix_eval h e l))
  have keeps : Keeps P (speak definitions ops) := by
    induction ops with
    | nil => exact Keeps.pure ()
    | cons op ops ih =>
        refine Keeps.bind ?_ fun _ => ih
        cases op with
        | call name args => exact (evaluated _).bind fun _ => Keeps.pure ()
        | expr e => exact (evaluated e).bind fun _ => Keeps.pure ()
        | sleep e =>
            refine (evaluated e).bind fun v => ?_
            split
            · exact Keeps.pure ()
            · exact Keeps.throw _
        | highlight _ => exact Keeps.pure ()
        | restore _ => exact Keeps.pure ()
  exact keeps.stateAfter List.prefix_rfl

/-- The lines of the first steps are the first of the lines of all steps. -/
theorem prefix_speak_append (h : ∀ d ∈ definitions, d.Appends) (ops rest : List Op) :
    (stateAfter (speak definitions ops) lines).toList <+:
      (stateAfter (speak definitions (ops ++ rest)) lines).toList := by
  rw [speak_append]
  have hends := Ends.self (speak definitions ops) lines
  have hrest : Ends (do speak definitions ops; speak definitions rest) lines
      (fun _ l => (stateAfter (speak definitions ops) lines).toList <+: l.toList)
      fun _ l => (stateAfter (speak definitions ops) lines).toList <+: l.toList := by
    refine Ends.bind (hends.mono (fun _ l hl => ?_) fun _ l hl => ?_)
    · rw [show stateAfter (speak definitions ops) lines = l by rw [stateAfter, hl]]
      exact Ends.of_stateAfter (P := fun m : Array Line => l.toList <+: m.toList)
        (prefix_speak h rest l)
    · have hlines : stateAfter (speak definitions ops) lines = l := by rw [stateAfter, hl]
      exact hlines ▸ List.prefix_rfl
  exact hrest.stateAfter (P := fun l : Array Line =>
    (stateAfter (speak definitions ops) lines).toList <+: l.toList)

end

/-! ### Runs -/

section

variable {t : Terms} {s : Scene Trace}

theorem Highlighter.keeps_lines_activate (h : Highlighter) (id : Value) (lines : Array Line) :
    Keeps (fun s : Scene Trace => s.audience.lines = lines) (h.activate id) := by
  have edited {α : Type} (e : Edit α) :
      Keeps (fun s : Scene Trace => s.audience.lines = lines) (Act.edit e) := fun _ hs =>
    Act.ends_edit ((Ends.self _ _).mono (fun _ _ _ => hs) fun _ _ _ => hs)
  unfold activate
  refine (Act.keeps_ofExcept _).bind fun k => Keeps.get.bind fun s => ?_
  split
  · exact Keeps.pure none
  · refine (edited _).bind fun _ => (Act.keeps_ofExcept _).bind fun c => (edited _).bind fun _ => ?_
    exact Keeps.bind (fun s hs => ends_announce fun _ _ hl _ => hl.trans hs) fun _ => Keeps.pure _

theorem Highlighter.keeps_lines_restore (h : Highlighter) (id : Value) (lines : Array Line) :
    Keeps (fun s : Scene Trace => s.audience.lines = lines) (h.restore id) := by
  unfold restore
  refine (Act.keeps_ofExcept _).bind fun k => Keeps.get.bind fun s => ?_
  split
  · exact Keeps.pure none
  · refine Keeps.bind (fun s hs => Act.ends_edit (Ends.modify hs)) fun _ => ?_
    exact Keeps.bind (fun s hs => ends_announce fun _ _ hl _ => hl.trans hs) fun _ => Keeps.pure _

/-- Whether no block is highlighted and all waits are over at once. -/
structure Terms.Calm (t : Terms) : Prop where
  highlighter : t.highlighter = none
  pacing : ∀ wait, t.pacing wait = .ok .over

/-- How a step ends beside what it does to the lines: it fails where that fails, and where all is
calm it fails and pauses nowhere else. -/
structure Run.Speaks (t : Terms) (x : Emit Unit) (lines : Array Line) (r : Run Pause)
    (s : Scene Trace) : Prop where
  ends : Ends r s
    (fun pause s' => x lines = .ok () s'.audience.lines ∧ (t.Calm → pause = .over))
    fun _ s' => (∃ e, x lines = .error e s'.audience.lines) ∨
      ¬ t.Calm ∧ x lines = .ok () s'.audience.lines

namespace Op

theorem speaks_over : Run.Speaks t (return) s.audience.lines (return .over) s :=
  ⟨Ends.pure ⟨rfl, fun _ => rfl⟩⟩

theorem speaks_eval {e : Expr} {rest : Value → Emit Unit} {next : Value → Run Pause}
    (h : ∀ v s', Run.Speaks t (rest v) s'.audience.lines (next v) s') :
    Run.Speaks t (do rest (← e.eval t.definitions)) s.audience.lines
      (do next (← Run.emit (e.eval t.definitions))) s := by
  refine ⟨Ends.bind (Run.ends_emit ((Ends.self _ _).mono (fun v l hl => ?_) fun x l hl => ?_))⟩
  · simp only [Bind.bind, EStateM.bind, hl]
    exact (h v _).ends
  · simp only [Bind.bind, EStateM.bind, hl]
    exact .inl ⟨x, rfl⟩

theorem speaks_highlighter {h : Highlighter} (hh : t.highlighter = some h)
    {x : Run (Option Value)}
    (hx : ∀ lines, Keeps (fun s : Scene Trace => s.audience.lines = lines) x) :
    Run.Speaks t (return) s.audience.lines (do let _ ← x; return .over) s := by
  have hcalm : ¬ t.Calm := fun hc => nomatch hc.highlighter.symm.trans hh
  refine ⟨Ends.bind ((hx _ s rfl).mono (fun _ s' hs => ?_) fun _ s' hs => ?_)⟩
  · exact Ends.pure ⟨by rw [hs]; rfl, fun _ => rfl⟩
  · exact .inr ⟨hcalm, by rw [hs]; rfl⟩

theorem speaks_perform (op : Op) (s : Scene Trace) :
    Run.Speaks t (op.speak t.definitions) s.audience.lines (op.perform t) s := by
  cases op with
  | call name args => exact speaks_eval fun v s' => speaks_over
  | expr e => exact speaks_eval fun v s' => speaks_over
  | sleep e =>
      refine speaks_eval fun v s' => ⟨Ends.bind (Act.ends_ofExcept (fun x hx => ?_) fun x hx => ?_)⟩
      · rw [hx]
        refine Ends.bind (Ends.get (Ends.bind (Ends.modify ?_)))
        refine Act.ends_ofExcept (fun pause hp => ⟨rfl, fun hc => ?_⟩) fun e he => .inr ⟨?_, rfl⟩
        · exact Except.ok.inj (hp.symm.trans (hc.pacing _))
        · exact fun hc => nomatch he.symm.trans (hc.pacing _)
      · rw [hx]
        exact .inl ⟨x, rfl⟩
  | highlight id =>
      dsimp only [perform]
      cases hh : t.highlighter with
      | none => exact speaks_over
      | some h => exact speaks_highlighter hh (h.keeps_lines_activate id)
  | restore id =>
      dsimp only [perform]
      cases hh : t.highlighter with
      | none => exact speaks_over
      | some h => exact speaks_highlighter hh (h.keeps_lines_restore id)

end Op

/-- **A run has put out the lines of the steps that are done.** -/
theorem ends_advance_lines (clock : Clock) (ops : List Op) : Ends (advance t clock ops) s
    (fun p s' => match p with
      | .finished => speak t.definitions ops s.audience.lines = .ok () s'.audience.lines
      | .paused _ rest => ∃ ran, ops = ran ++ rest ∧
          speak t.definitions ran s.audience.lines = .ok () s'.audience.lines)
    fun _ s' => ∃ ran, ran <+: ops ∧
      s'.audience.lines = stateAfter (speak t.definitions ran) s.audience.lines := by
  -- step by step, with the lines that are there when the step begins
  induction ops generalizing clock s with
  | nil => exact Ends.pure rfl
  | cons op ops ih =>
      have after {s' : Scene Trace} {ran : List Op}
          (hs : op.speak t.definitions s.audience.lines = .ok () s'.audience.lines) :
          speak t.definitions (op :: ran) s.audience.lines =
            speak t.definitions ran s'.audience.lines := by
        simp only [speak, Bind.bind, EStateM.bind, hs]
      refine ends_advance_cons (fun newest _ _ => ⟨[], List.nil_prefix, rfl⟩)
        ((op.speaks_perform s).ends.mono (fun pause s' hs => ?_) fun x s' hs => ?_)
      · obtain ⟨hs, -⟩ := hs
        split
        · refine ((ih _).mono (fun p u hu => ?_) fun _ u hu => ?_)
          · cases p with
            | finished => exact (after hs).trans hu
            | paused pause rest =>
                obtain ⟨ran, rfl, hran⟩ := hu
                exact ⟨op :: ran, rfl, (after hs).trans hran⟩
          · obtain ⟨ran, hran, hu⟩ := hu
            refine ⟨op :: ran, List.prefix_cons_inj op |>.mpr hran, ?_⟩
            rw [hu, stateAfter, stateAfter, after hs]
        · exact ⟨[op], rfl, after hs⟩
      · refine ⟨[op], ⟨ops, rfl⟩, ?_⟩
        simp only [speak, bind_pure_unit, stateAfter]
        obtain ⟨e, he⟩ | ⟨-, he⟩ := hs
        all_goals rw [he]

/-- Where all is calm, steps put out all their lines. -/
theorem Terms.Calm.ends_advance (hcalm : t.Calm) {clock : Clock} (hc : clock.Steady t.generation)
    (ops : List Op) (s : Scene Trace) : Ends (advance t clock ops) s
      (fun _ s' => s'.audience.lines = stateAfter (speak t.definitions ops) s.audience.lines)
      fun _ s' => s'.audience.lines = stateAfter (speak t.definitions ops) s.audience.lines := by
  induction ops generalizing clock s with
  | nil => exact Ends.pure rfl
  | cons op ops ih =>
      refine ends_advance_steady hc ((op.speaks_perform s).ends.mono (fun pause s' hs => ?_)
        fun x s' hs => ?_)
      · rw [if_pos (hs.2 hcalm)]
        intro clock hc
        have hspeak : speak t.definitions (op :: ops) s.audience.lines =
            speak t.definitions ops s'.audience.lines := by
          simp only [speak, Bind.bind, EStateM.bind, show op.speak t.definitions _ = _ from hs.1]
        rw [stateAfter, hspeak]
        exact ih hc s'
      · obtain ⟨e, he⟩ | ⟨hn, -⟩ := hs
        · simp only [stateAfter, speak, Bind.bind, EStateM.bind,
            show op.speak t.definitions _ = _ from he]
        · exact absurd hcalm hn

/-- Steps by themselves put out all their lines. -/
theorem lines_of_advance (definitions : List Subroutine) (generation : Value) (ops : List Op)
    (r : Scene Trace) : (stateAfter (advance { definitions, generation } [] ops) r).audience.lines =
      stateAfter (speak definitions ops) r.audience.lines := by
  have hcalm : Terms.Calm { definitions, generation } := ⟨rfl, fun _ => rfl⟩
  exact (hcalm.ends_advance (Clock.steady_nil _) ops r).stateAfter (P := fun s' : Scene Trace =>
    s'.audience.lines = stateAfter (speak definitions ops) r.audience.lines)

/-- A run by itself puts out the lines of all its steps. -/
theorem Program.lines_of_run (p : Program) (generation : Value) (r : Scene Trace) :
    (stateAfter (p.run none generation []) r).audience.lines =
      stateAfter (speak p.definitions p.ops) r.audience.lines := by
  have hcalm : Terms.Calm { definitions := p.definitions, generation } := ⟨rfl, fun _ => rfl⟩
  exact (Ends.bind ((hcalm.ends_advance (Clock.steady_nil _) p.ops r).mono
    (fun _ _ hs => Ends.pure hs) fun _ _ hs => hs)).stateAfter (P := fun s' : Scene Trace =>
      s'.audience.lines = stateAfter (speak p.definitions p.ops) r.audience.lines)

end

end Blockwork
