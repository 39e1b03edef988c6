import Blockwork.Proofs.Alone
import Blockwork.Proofs.Awaiting
import Blockwork.Proofs.Running
import Blockwork.Proofs.Twins

/-!
# Programs without their highlights

A program that was prepared for highlighting is the program it was made of once the steps that
highlight and restore blocks are left out (`Program.bare_instrument`).  So are its runs: plain steps
come to the same wherever as many lines have been put out, whatever the blocks look like
(`Op.alike_perform`), and to highlight or restore a block puts out nothing and asks for nothing.
So a run by itself comes to the same with those steps and without them (`sameEffects_through`).
-/

namespace Blockwork

/-! ### Leaving steps out -/

/-- The fragment without the steps that highlight and restore blocks. -/
def Fragment.bare (f : Fragment) : Fragment := { f with ops := f.ops.filter (·.isPlain) }

/-- The program without the steps that highlight and restore blocks. -/
def Program.bare (p : Program) : Program := { p with chains := p.chains.map (·.map Fragment.bare) }

/-- How far a run has come, where the steps that are left do not highlight or restore blocks. -/
def Progress.bare : Progress → Progress
  | .finished => .finished
  | .paused pause pending => .paused pause (pending.filter (·.isPlain))

namespace Fragment

variable {f : Fragment} {fs : List Fragment}

theorem Plain.filter (h : f.Plain) : f.ops.filter (·.isPlain) = f.ops := List.filter_eq_self.mpr h

theorem Plain.filter_instrument (h : f.Plain) : f.instrument.ops.filter (·.isPlain) = f.ops := by
  rw [instrument_ops]
  split
  · rw [List.filter_append, List.filter_cons_of_neg Bool.false_ne_true,
      List.filter_cons_of_neg Bool.false_ne_true, h.filter]
    exact List.append_nil _
  · exact h.filter

theorem Plain.bare_instrument (h : f.Plain) : f.instrument.bare = f := by
  unfold bare
  rw [h.filter_instrument]
  unfold instrument
  split <;> rfl

theorem filter_opsOf (h : ∀ f ∈ fs, f.Plain) :
    (opsOf fs).filter (·.isPlain) = fs.flatMap (·.ops) := by
  induction fs with
  | nil => rfl
  | cons f fs ih =>
      rw [List.forall_mem_cons] at h
      rw [opsOf_cons, List.filter_append, h.1.filter_instrument, ih h.2, List.flatMap_cons]

end Fragment

namespace Program

variable {p : Program}

theorem ops_instrument (p : Program) : p.instrument.ops = Fragment.opsOf p.fragments := by
  rw [ops, fragments_instrument, Fragment.opsOf]

/-- Without its highlights the program is what it was. -/
theorem bare_instrument (h : ∀ f ∈ p.fragments, f.Plain) : p.instrument.bare = p := by
  have hchains : (p.chains.map (·.map Fragment.instrument)).map (·.map Fragment.bare) = p.chains := by
    rw [List.map_map]
    refine (List.map_congr_left fun fs hfs => ?_).trans (List.map_id _)
    rw [Function.comp_apply, List.map_map]
    refine (List.map_congr_left fun f hf => ?_).trans (List.map_id _)
    exact (h f (List.mem_flatten.mpr ⟨fs, hfs, hf⟩)).bare_instrument
  unfold bare instrument
  rw [hchains]

end Program

/-! ### Plain steps -/

/-- Whether in two scenes as many lines have been put out and waits asked for, while the colours of
the first one's blocks can be lightened. -/
structure Scene.InStep (shade : Shade) (s u : Scene Trace) : Prop where
  bright : s.workspace.Bright shade
  lines : u.audience.lines = s.audience.lines
  waits : u.audience.waits = s.audience.waits

/-- As many waits have been asked for. -/
theorem Scene.InStep.naps_size_eq {shade : Shade} {s u : Scene Trace} (h : s.InStep shade u) :
    u.audience.naps.size = s.audience.naps.size := by
  have hwaits := congrArg List.length h.waits
  unfold Trace.waits at hwaits
  rwa [List.length_map, List.length_map, Array.length_toList, Array.length_toList] at hwaits

section

variable {shade : Shade} {t : Terms}

theorem Run.alike_emit {α : Type} (e : Emit α) :
    Alike (Scene.InStep shade) Eq Eq (emit e) (emit e) := by
  intro s u hs
  unfold emit
  rw [hs.lines]
  cases e s.audience.lines with
  | ok a lines => exact ⟨rfl, hs.bright, rfl, hs.waits⟩
  | error x lines => exact ⟨rfl, hs.bright, rfl, hs.waits⟩

theorem Act.alike_ofExcept {α : Type} (r : Except Error α) :
    Alike (Scene.InStep shade) Eq Eq (ofExcept r) (ofExcept r) := by
  cases r with
  | ok a => exact .pure rfl
  | error e => exact .throw rfl

/-- A wait is asked for after as many lines, whatever is highlighted meanwhile. -/
theorem Terms.alike_nap (t : Terms) (seconds : Binary64) :
    Alike (Scene.InStep shade) Eq Eq (t.nap seconds) (t.nap seconds) := by
  refine Alike.get.bind fun s' u' hs' => (Alike.modify fun s u hs => ?_).bind fun _ _ _ => ?_
  · refine ⟨hs.bright, hs.lines, ?_⟩
    have hwaits := hs.waits
    unfold Trace.waits at hwaits ⊢
    simp only [Array.toList_push, List.map_append, hwaits, hs.lines]
    rfl
  · rw [hs'.naps_size_eq]
    exact Act.alike_ofExcept _

/-- **A plain step comes to the same wherever as many lines have been put out.** -/
theorem Op.alike_perform {op : Op} (ho : op.isPlain = true) :
    Alike (Scene.InStep shade) Eq Eq (op.perform t) (op.perform t) := by
  cases op with
  | call name args => exact (Run.alike_emit _).bind fun _ _ _ => .pure rfl
  | expr e => exact (Run.alike_emit _).bind fun _ _ _ => .pure rfl
  | sleep e =>
      refine (Run.alike_emit _).bind fun v _ hv => ?_
      subst hv
      refine (Act.alike_ofExcept _).bind fun x _ hx => ?_
      subst hx
      exact t.alike_nap x
  | highlight _ => cases ho
  | restore _ => cases ho

/-! ### Runs -/

/-- Whether the block that a step highlights or restores has an id that can be looked up. -/
def Op.Keyed : Op → Prop
  | .highlight id | .restore id => id.key?.isSome = true
  | _ => True

theorem Value.exists_toKey_of_isSome {v : Value} (h : v.key?.isSome = true) : ∃ k, v.toKey = .ok k := by
  obtain ⟨k, hk⟩ := Option.isSome_iff_exists.mp h
  exact ⟨k, by rw [toKey, hk]⟩

/-- To highlight or restore a block puts out nothing and asks for nothing. -/
theorem Op.ends_perform_marking {g : Highlighter} (hg : t.highlighter = some g) {op : Op}
    (ho : op.isPlain = false) (hk : op.Keyed) {s u : Scene Trace} (hs : s.InStep g.shade u) :
    Ends (op.perform t) s (fun pause s' => pause = .over ∧ s'.InStep g.shade u)
      fun _ _ => False := by
  have inStep {s' : Scene Trace} (h : s.Follows g.shade [] s') : s'.InStep g.shade u :=
    ⟨h.bright, hs.lines.trans (Array.toList_inj.mp (h.trace.lines.trans (List.append_nil _))).symm,
      hs.waits.trans (h.trace.waits.trans (List.append_nil _)).symm⟩
  cases op with
  | highlight id =>
      obtain ⟨k, hk⟩ := Value.exists_toKey_of_isSome hk
      unfold perform
      rw [hg]
      exact Ends.bind ((Highlighter.ends_activate hk hs.bright).mono
        (fun _ _ h => Ends.pure ⟨rfl, inStep h⟩) fun _ _ he => he)
  | restore id =>
      obtain ⟨k, hk⟩ := Value.exists_toKey_of_isSome hk
      unfold perform
      rw [hg]
      exact Ends.bind ((Highlighter.ends_restore hk hs.bright).mono
        (fun _ _ h => Ends.pure ⟨rfl, inStep h⟩) fun _ _ he => he)
  | _ => cases ho

/-- A run by itself goes on in step with that of its plain steps. -/
theorem alike_through {g : Highlighter} (hg : t.highlighter = some g) {clock : Clock}
    (hc : clock.Steady t.generation) {ops : List Op} (hk : ∀ op ∈ ops, op.Keyed)
    (waits : List (Option Error)) :
    Alike (Scene.InStep g.shade) Eq (fun p q => q = p.bare) (through t clock waits ops)
      (through t clock waits (ops.filter (·.isPlain))) := by
  -- along the steps: a plain one is run in both, any other one in the first only
  induction ops generalizing waits with
  | nil =>
      intro s u hs
      rw [List.filter_nil, through_nil, through_nil]
      exact ⟨rfl, hs⟩
  | cons op ops ih =>
      rw [List.forall_mem_cons] at hk
      intro s u hs
      cases ho : op.isPlain with
      | false =>
          rw [List.filter_cons_of_neg (by rw [ho]; exact Bool.false_ne_true)]
          obtain ⟨pause, s', hperform, rfl, hs'⟩ :=
            (Op.ends_perform_marking hg ho hk.1 hs).exists_ok
          rw [through_cons hc]
          simp only [Bind.bind, EStateM.bind, hperform]
          exact ih hk.2 waits s' u hs'
      | true =>
          rw [List.filter_cons_of_pos ho, through_cons hc, through_cons hc]
          refine (Op.alike_perform ho).bind (fun pause _ hpause => ?_) s u hs
          subst hpause
          unfold onward
          split
          · exact ih hk.2 waits
          · rcases waits with _ | ⟨_ | e, waits⟩
            · exact .pure rfl
            · exact ih hk.2 waits
            · exact .throw rfl

/-- Whether two runs from a scene come to the same, but for steps that highlight and restore blocks
among those that are left, and put out the same lines and ask for the same waits until then. -/
structure SameEffects (x y : Run Progress) (s : Scene Trace) : Prop where
  answer : answerOf y s = (answerOf x s).map Progress.bare
  lines : (stateAfter y s).audience.lines = (stateAfter x s).audience.lines
  waits : (stateAfter y s).audience.waits = (stateAfter x s).audience.waits

/-- **A run by itself comes to the same without the steps that highlight and restore blocks.** -/
theorem sameEffects_through {g : Highlighter} (hg : t.highlighter = some g) {clock : Clock}
    (hc : clock.Steady t.generation) {ops : List Op} (hk : ∀ op ∈ ops, op.Keyed)
    (waits : List (Option Error)) {s : Scene Trace} (hs : s.workspace.Bright g.shade) :
    SameEffects (through t clock waits ops) (through t clock waits (ops.filter (·.isPlain))) s := by
  have halike := alike_through hg hc hk waits s s ⟨hs, rfl, rfl⟩
  cases hx : through t clock waits ops s <;>
    cases hy : through t clock waits (ops.filter (·.isPlain)) s <;> rw [hx, hy] at halike
  · obtain ⟨rfl, hstep⟩ := halike
    constructor <;> simp only [answerOf, stateAfter, hx, hy]
    · rfl
    · exact hstep.lines
    · exact hstep.waits
  · exact halike.elim
  · exact halike.elim
  · obtain ⟨rfl, hstep⟩ := halike
    constructor <;> simp only [answerOf, stateAfter, hx, hy]
    · rfl
    · exact hstep.lines
    · exact hstep.waits

theorem SameEffects.finished_iff {x y : Run Progress} {s : Scene Trace} (h : SameEffects x y s) :
    answerOf y s = .ok .finished ↔ answerOf x s = .ok .finished := by
  rw [h.answer]
  rcases answerOf x s with e | _ | _
  · exact ⟨nofun, nofun⟩
  · exact ⟨fun _ => rfl, fun _ => rfl⟩
  · exact ⟨nofun, nofun⟩

end

end Blockwork
