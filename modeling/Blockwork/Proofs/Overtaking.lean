import Blockwork.Proofs.Awaiting
import Blockwork.Proofs.Running
import Blockwork.Proofs.Speaking
import Blockwork.Proofs.Stages

/-!
# Cycles that overtake others

What holds of a stage whatever is done at the desk (`Stage.Orderly`).  A cycle that is not the
newest one does nothing when it goes on (`Stage.Goes.stale`), so what is highlighted and what has
been put out since the newest cycle began is the newest one's doing alone, and can be told from how
far it has come: only the block that its steps to come restore first is highlighted, and the lines
are those of its steps so far.  Once it is over, the lines stay as they are (`Stage.Told`).
-/

namespace Blockwork

theorem Op.Paired.of_append {ops rest : List Op} (h : Paired (ops ++ rest)) : Paired rest := by
  induction ops with
  | nil => exact h
  | cons op ops ih =>
      cases op with
      | highlight id => exact ih h.2
      | restore id => exact ih h.2
      | _ => exact ih h

/-- What is run is a program that is prepared for highlighting. -/
theorem Session.exists_program {t : Compiler} {w : Workspace} {p : Program} {text : String}
    (h : prepare t w = .ok (p, text)) : ∃ q, t.program w = .ok q ∧ p = q.instrument := by
  unfold prepare at h
  cases hp : t.program w with
  | error e =>
      rw [hp] at h
      cases h
  | ok q =>
      rw [hp] at h
      change (q.instrument.render >>= fun text => .ok (q.instrument, text)) = _ at h
      cases hr : q.instrument.render with
      | error e =>
          rw [hr] at h
          cases h
      | ok text' =>
          rw [hr] at h
          exact ⟨q, rfl, (congrArg Prod.fst (Except.ok.inj h)).symm⟩

/-- Whether a cycle runs a plain program that is prepared for highlighting, and stands at its begin
or behind a wait. -/
structure Cycle.Underway (c : Cycle) : Prop where
  made : ∃ p : Program, p.Plain ∧ c.program = p.instrument
  come : ∃ ran, c.program.ops = ran ++ c.pending ∧
    (ran = [] ∨ ∃ before e, ran = before ++ [.sleep e])
  fault : ∀ e ∈ c.broken, e.isFault = true

namespace Cycle.Underway

variable {c : Cycle}

theorem of_prepare {t : Compiler} (ht : t.Plain) {w : Workspace} {p : Program} {text : String}
    (h : Session.prepare t w = .ok (p, text)) (number generation : Nat) :
    Underway ⟨number, generation, p, p.ops, none⟩ := by
  obtain ⟨q, hq, hp⟩ := Session.exists_program h
  exact ⟨⟨q, ht.program hq, hp⟩, ⟨[], rfl, .inl rfl⟩, fun _ he => nomatch he⟩

/-- A cycle that has come to another wait. -/
theorem further (h : c.Underway) {ran rest : List Op} {e : Expr}
    (hp : c.pending = ran ++ .sleep e :: rest) : Underway { c with pending := rest } := by
  obtain ⟨before, hops, -⟩ := h.come
  refine ⟨h.made, ⟨before ++ (ran ++ [.sleep e]), ?_, .inr ⟨before ++ ran, e, ?_⟩⟩, h.fault⟩
  · rw [hops, hp]
    simp
  · exact (List.append_assoc ..).symm

theorem honest (h : c.Underway) : ∀ d ∈ c.program.definitions, d.Honest := by
  obtain ⟨p, hp, hc⟩ := h.made
  rw [hc]
  exact hp.honest

theorem paired (h : c.Underway) : Op.Paired c.pending := by
  obtain ⟨p, hp, hc⟩ := h.made
  obtain ⟨ran, hops, -⟩ := h.come
  have hpaired := (Fragment.mark_opsOf hp.steps).2
  rw [hc, Program.ops, Program.fragments_instrument] at hops
  rw [show Fragment.opsOf p.fragments = ran ++ c.pending from hops] at hpaired
  exact hpaired.of_append

/-- The block that the steps to come restore first is the one in whose statement the cycle waits. -/
theorem exists_awaiting (h : c.Underway) {id : Value} (hid : Op.mark c.pending = some id) :
    ∃ f, c.AwaitsIn f ∧ f.block = id := by
  obtain ⟨p, hp, hc⟩ := h.made
  obtain ⟨ran, hops, hran⟩ := h.come
  have hfragments := congrArg Program.fragments hc
  rw [Program.fragments_instrument] at hfragments
  have hall : Fragment.opsOf p.fragments = ran ++ c.pending := by
    rw [← hops, Program.ops, hfragments]
    rfl
  rcases hran with rfl | ⟨before, e, rfl⟩
  · -- a cycle that has not begun has no block to restore
    rw [← show Fragment.opsOf p.fragments = c.pending from hall,
      (Fragment.mark_opsOf hp.steps).1] at hid
    cases hid
  · rw [List.append_assoc, List.singleton_append] at hall
    obtain ⟨before, f, after, ran, left, hf, hs, hb, hsteps, hpending⟩ :=
      Fragment.exists_awaiting hp.steps hall hid
    exact ⟨f, ⟨hs, before, after, ran, e, left, hfragments.trans hf, hsteps, hpending⟩, hb⟩

end Cycle.Underway

/-- **A cycle that is not the newest one does nothing when it goes on**, and comes to its end only
without steps. -/
theorem Session.ends_proceed_stale {q : Session} (hq : q.settings.supersedes = true) {c : Cycle}
    (hc : c.generation ≠ q.generation) {s : Scene Trace} :
    Ends (proceed q c) s (fun p t => (p = .finished ∧ c.pending = []) ∧ t = s)
      fun _ t => t = s := by
  unfold proceed
  split
  · exact Ends.throw rfl
  · rw [clock, if_pos hq]
    have hne : (Value.int q.generation).same (terms q c).generation = false := by
      change (Value.int _).same (.int _) = false
      rw [Value.same_int]
      exact decide_eq_false fun h => hc (by omega)
    exact (ends_advance_stale hne c.pending).mono (fun _ _ ht => ht) fun _ _ ht => ht.2

/-- Whether a session goes by the same as another one. -/
structure Session.Goes (s s' : Session) : Prop where
  generation : s'.generation = s.generation
  settings : s'.settings = s.settings
  compiler : s'.compiler = s.compiler
  pacing : s'.pacing = s.pacing

namespace Session

theorem Goes.refl (s : Session) : s.Goes s := ⟨rfl, rfl, rfl, rfl⟩

theorem goes_said (s : Session) (lines : Array Line) : s.Goes (s.said lines) :=
  ⟨rfl, rfl, rfl, rfl⟩

theorem goes_completed (s : Session) (lines : Array Line) (c : Cycle) :
    s.Goes ((s.said lines).completed c) := ⟨rfl, rfl, rfl, rfl⟩

theorem goes_faulted (s : Session) (lines : Array Line) (e : Error) :
    s.Goes ((s.said lines).faulted e) := ⟨rfl, rfl, rfl, rfl⟩

end Session

namespace Stage

/-- What holds of a stage whatever is done at the desk, where newer cycles supersede older ones. -/
structure Orderly (v : Stage) : Prop extends v.Sound where
  supersedes : v.session.settings.supersedes = true
  underway : ∀ c ∈ v.cycles, c.Underway
  upTo : ∀ c ∈ v.cycles, c.generation ≤ v.session.generation
  distinct : (v.cycles.map (·.generation)).Nodup
  /-- Only the block is highlighted that the newest cycle will restore. -/
  lit : v.workspace.LitWithin fun k => ∃ c ∈ v.cycles, c.generation = v.session.generation ∧
    ∃ id ∈ Op.mark c.pending, id.Names k
  /-- The lines are those of the newest cycle, as far as it has come. -/
  spoken : ∀ c ∈ v.cycles, c.generation = v.session.generation → ∃ ran,
    c.program.ops = ran ++ c.pending ∧
      speak c.program.definitions ran #[] = .ok () v.session.output.lines
  /-- Cycles with a result are not under way any more. -/
  settled : ∀ r ∈ v.session.results, ∃ g : Nat, r.generation = .int g ∧ g ≤ v.session.generation ∧
    ∀ c ∈ v.cycles, c.generation ≠ g

variable {v v' : Stage} {c : Cycle} {r : Except Error Progress} {s : Session} {w : Workspace}

/-! ### Going on -/

theorem Goes.stale (h : v.Goes c r s w) (hv : v.session.settings.supersedes = true)
    (hc : c.generation ≠ v.session.generation) :
    s = v.session ∧ w = v.workspace ∧ ∀ p, r = .ok p → p = .finished ∧ c.pending = [] := by
  refine h.of_ends (Q := fun r s w => s = v.session ∧ w = v.workspace ∧
    ∀ p, r = .ok p → p = .finished ∧ c.pending = []) fun s' hw hl => ?_
  refine (Session.ends_proceed_stale hv hc).mono (fun p t ht => ?_) fun e t ht => ?_
  · obtain ⟨⟨rfl, hpending⟩, rfl⟩ := ht
    exact ⟨by rw [hl]; rfl, hw, fun p hp => ⟨(Except.ok.inj hp).symm, hpending⟩⟩
  · obtain rfl := ht
    exact ⟨by rw [hl]; rfl, hw, fun _ h => nomatch h⟩

/-- What is highlighted and put out wherever the newest cycle comes. -/
def Reaches (v : Stage) (c : Cycle) : Except Error Progress → Session → Workspace → Prop
  | .ok .finished, s, w => w.Unlit ∧
      speak c.program.definitions c.pending v.session.output.lines = .ok () s.output.lines
  | .ok (.paused _ rest), s, w => (w.LitWithin fun k => ∃ id ∈ Op.mark rest, id.Names k) ∧
      ∃ ran e, c.pending = ran ++ .sleep e :: rest ∧
        speak c.program.definitions (ran ++ [.sleep e]) v.session.output.lines =
          .ok () s.output.lines
  | .error e, s, _ => e.isFault = true ∧ ∃ ran, ran <+: c.pending ∧
      s.output.lines = stateAfter (speak c.program.definitions ran) v.session.output.lines

/-- **The newest cycle highlights only the block that its steps to come restore first, and puts out
the lines of its steps.** -/
theorem Goes.newest (h : v.Goes c r s w) (hv : v.Orderly) (hc : c.Underway)
    (hnew : c.generation = v.session.generation)
    (hlit : v.workspace.LitWithin fun k => ∃ id ∈ Op.mark c.pending, id.Names k) :
    v.Reaches c r s w := by
  refine h.of_ends fun s' hw hl => ?_
  unfold Session.proceed
  split
  · rename_i e he
    exact Ends.throw ⟨hc.fault e he, [], List.nil_prefix, hl⟩
  · have hsteady : (Session.clock v.session).Steady (Session.terms v.session c).generation := by
      rw [Session.clock, if_pos hv.supersedes]
      rintro newest hn
      obtain rfl := List.mem_singleton.mp hn
      change (Value.int _).same (.int _) = true
      rw [Value.same_int, hnew]
      exact decide_eq_true rfl
    have hmay : s'.workspace.LitWithin (Op.MayLight (fun _ => False) c.pending) :=
      hw ▸ hlit.mono fun _ => .inr
    have lit := ends_advance_lit (t := Session.terms v.session c) hc.honest hv.fair rfl hc.paired
      hsteady (hw ▸ hv.filed) hmay
    have lines := ends_advance_lines (t := Session.terms v.session c) (s := s')
      (Session.clock v.session) c.pending
    rw [hl] at lines
    refine (lit.and lines).mono (fun p t ht => ?_) fun e t ht => ht
    cases p with
    | finished => exact ht
    | paused pause rest =>
        obtain ⟨⟨hmark, -, ran, e, hops⟩, ran', hops', hspeak⟩ := ht
        rw [← List.append_cancel_right (show ran ++ [.sleep e] ++ rest = ran' ++ rest by
          rw [← hops', hops, List.append_assoc, List.singleton_append])] at hspeak
        exact ⟨hmark.mono fun _ hk => hk.resolve_left id, ran, e, hops, hspeak⟩

/-! ### Moves -/

/-- The order of the cycles does not matter. -/
theorem Orderly.perm (h : v.Orderly) {cs : List Cycle} (hp : v.cycles.Perm cs) :
    Orderly { v with cycles := cs } where
  filed := h.filed
  supersedes := h.supersedes
  plain := h.plain
  fair := h.fair
  underway c hc := h.underway c (hp.mem_iff.mpr hc)
  upTo c hc := h.upTo c (hp.mem_iff.mpr hc)
  distinct := (hp.map _).nodup_iff.mp h.distinct
  lit := h.lit.mono fun _ ⟨c, hc, hk⟩ => ⟨c, hp.mem_iff.mp hc, hk⟩
  spoken c hc := h.spoken c (hp.mem_iff.mpr hc)
  settled r hr := by
    obtain ⟨g, hg, hle, hne⟩ := h.settled r hr
    exact ⟨g, hg, hle, fun c hc => hne c (hp.mem_iff.mpr hc)⟩

section

variable {q : Session} {cs : List Cycle} (h : Orderly ⟨q, w, c :: cs⟩)

include h

theorem Orderly.generation_ne {d : Cycle} (hd : d ∈ cs) : d.generation ≠ c.generation := fun he =>
  (List.nodup_cons.mp h.distinct).1 (List.mem_map.mpr ⟨d, hd, he⟩)

/-- Where the first cycle is the newest one, what is highlighted is its block. -/
theorem Orderly.lit_first (hnew : c.generation = q.generation) :
    w.LitWithin fun k => ∃ id ∈ Op.mark c.pending, id.Names k := by
  refine h.lit.mono fun k ⟨d, hd, hg, hk⟩ => ?_
  rcases List.mem_cons.mp hd with rfl | hd
  · exact hk
  · exact absurd (hg.trans hnew.symm) (h.generation_ne hd)

/-- The first cycle is over. -/
theorem Orderly.ended {q' : Session} {w' : Workspace} (hq : q.Goes q')
    (hr : ∀ r ∈ q'.results, r ∈ q.results ∨ r.generation = .int c.generation) (hw : w'.Filed)
    (hold : c.generation ≠ q.generation → w' = w ∧ q'.output.lines = q.output.lines)
    (hnew : c.generation = q.generation → w'.Unlit) : Orderly ⟨q', w', cs⟩ where
  filed := hw
  supersedes := hq.settings ▸ h.supersedes
  plain := hq.compiler ▸ h.plain
  fair := hq.pacing ▸ h.fair
  underway d hd := h.underway d (List.mem_cons_of_mem c hd)
  upTo d hd := hq.generation ▸ h.upTo d (List.mem_cons_of_mem c hd)
  distinct := (List.nodup_cons.mp h.distinct).2
  lit := by
    -- what an older cycle leaves highlighted is the newest one's
    by_cases hcg : c.generation = q.generation
    · exact (hnew hcg).within
    · rw [(hold hcg).1]
      refine h.lit.mono fun k ⟨d, hd, hdg, hk⟩ => ?_
      rcases List.mem_cons.mp hd with rfl | hd
      · exact absurd hdg hcg
      · exact ⟨d, hd, hdg.trans hq.generation.symm, hk⟩
  spoken d hd hdg := by
    have heq : d.generation = q.generation := hdg.trans hq.generation
    have hcg : c.generation ≠ q.generation := fun hcg => h.generation_ne hd (heq.trans hcg.symm)
    obtain ⟨ran, hops, hspeak⟩ := h.spoken d (List.mem_cons_of_mem c hd) heq
    exact ⟨ran, hops, hspeak.trans (by rw [(hold hcg).2])⟩
  settled r hr' := by
    obtain hr' | hr' := hr r hr'
    · obtain ⟨g, hrg, hle, hne⟩ := h.settled r hr'
      exact ⟨g, hrg, hq.generation ▸ hle, fun d hd => hne d (List.mem_cons_of_mem c hd)⟩
    · exact ⟨c.generation, hr', hq.generation ▸ h.upTo c List.mem_cons_self,
        fun d hd => h.generation_ne hd⟩

/-- The first cycle has come further. -/
theorem Orderly.moved {q' : Session} {w' : Workspace} {d : Cycle} (hq : q.Goes q')
    (hr : q'.results = q.results) (hd : d.Underway) (hg : d.generation = c.generation)
    (hw : w'.Filed)
    (hold : c.generation ≠ q.generation → w' = w ∧ q'.output.lines = q.output.lines)
    (hnew : c.generation = q.generation →
      (w'.LitWithin fun k => ∃ id ∈ Op.mark d.pending, id.Names k) ∧
        ∃ ran, d.program.ops = ran ++ d.pending ∧
          speak d.program.definitions ran #[] = .ok () q'.output.lines) :
    Orderly ⟨q', w', d :: cs⟩ where
  filed := hw
  supersedes := hq.settings ▸ h.supersedes
  plain := hq.compiler ▸ h.plain
  fair := hq.pacing ▸ h.fair
  underway := List.forall_mem_cons.mpr ⟨hd, (List.forall_mem_cons.mp h.underway).2⟩
  upTo := by
    have hle := List.forall_mem_cons.mp h.upTo
    rw [← hg, ← hq.generation] at hle
    exact List.forall_mem_cons.mpr hle
  distinct := by
    have hdistinct := h.distinct
    rw [List.map_cons, ← hg] at hdistinct
    exact hdistinct
  lit := by
    by_cases hcg : c.generation = q.generation
    · exact (hnew hcg).1.mono fun k hk =>
        ⟨d, List.mem_cons_self, (hg.trans hcg).trans hq.generation.symm, hk⟩
    · rw [(hold hcg).1]
      refine h.lit.mono fun k ⟨e, he, heg, hk⟩ => ?_
      rcases List.mem_cons.mp he with rfl | he
      · exact absurd heg hcg
      · exact ⟨e, List.mem_cons_of_mem d he, heg.trans hq.generation.symm, hk⟩
  spoken e he heg := by
    have heq : e.generation = q.generation := heg.trans hq.generation
    rcases List.mem_cons.mp he with rfl | he
    · exact (hnew (hg.symm.trans heq)).2
    · have hcg : c.generation ≠ q.generation := fun hcg => h.generation_ne he (heq.trans hcg.symm)
      obtain ⟨ran, hops, hspeak⟩ := h.spoken e (List.mem_cons_of_mem c he) heq
      exact ⟨ran, hops, hspeak.trans (by rw [(hold hcg).2])⟩
  settled r hr' := by
    obtain ⟨g, hrg, hle, hne⟩ := h.settled r (hr ▸ hr')
    rw [List.forall_mem_cons, ← hg] at hne
    exact ⟨g, hrg, hq.generation ▸ hle, List.forall_mem_cons.mpr hne⟩

end

/-- A cycle without a program makes all others old ones. -/
theorem Orderly.renewed (h : v.Orderly) (hw : w.Filed) (hn : w.Unlit) :
    Orderly { v with session := v.session.renewed, workspace := w } where
  filed := hw
  supersedes := h.supersedes
  plain := h.plain
  fair := h.fair
  underway := h.underway
  upTo c hc := Nat.le_succ_of_le (h.upTo c hc)
  distinct := h.distinct
  lit := hn.within
  spoken c hc hg := absurd (h.upTo c hc) (by rw [hg]; exact Nat.not_succ_le_self _)
  settled r hr := by
    obtain ⟨g, hg, hle, hne⟩ := h.settled r hr
    exact ⟨g, hg, Nat.le_succ_of_le hle, hne⟩

/-- So does a cycle with a program. -/
theorem Orderly.begun (h : v.Orderly) (hw : w.Filed) (hn : w.Unlit) {p : Program} {text : String}
    (hp : Session.prepare v.session.compiler w = .ok (p, text)) : Orderly
      { session := v.session.renewed.showing text
        workspace := w
        cycles := ⟨0, v.session.generation + 1, p, p.ops, none⟩ :: v.cycles } where
  filed := hw
  supersedes := h.supersedes
  plain := h.plain
  fair := h.fair
  underway := List.forall_mem_cons.mpr ⟨.of_prepare h.plain hp _ _, h.underway⟩
  upTo := List.forall_mem_cons.mpr ⟨Nat.le_refl _, (h.renewed hw hn).upTo⟩
  distinct := by
    refine List.nodup_cons.mpr ⟨fun hmem => ?_, h.distinct⟩
    obtain ⟨c, hc, hg⟩ := List.mem_map.mp hmem
    exact Nat.not_succ_le_self _ (hg ▸ h.upTo c hc)
  lit := hn.within
  spoken := List.forall_mem_cons.mpr ⟨fun _ => ⟨[], rfl, rfl⟩, fun c hc hg =>
    absurd (h.upTo c hc) (by rw [hg]; exact Nat.not_succ_le_self _)⟩
  settled r hr := by
    obtain ⟨g, hg, hle, hne⟩ := h.settled r hr
    refine ⟨g, hg, Nat.le_succ_of_le hle, List.forall_mem_cons.mpr ⟨?_, hne⟩⟩
    exact Nat.ne_of_gt (Nat.lt_succ_of_le hle)

theorem Move.generation_le (hm : Move v v') :
    v.session.generation ≤ v'.session.generation := by
  cases hm with
  | renewed => exact Nat.le_succ _
  | begun => exact Nat.le_succ _
  | edited => exact Nat.le_refl _
  | paced => exact Nat.le_refl _
  | woken => exact Nat.le_refl _
  | finished _ hg | paused _ hg | superseded _ _ hg | failed _ _ hg =>
      obtain ⟨_, rfl⟩ := hg.session_eq
      exact Nat.le_refl _

/-- A cycle that is not the newest one leaves the workspace and the lines as they are. -/
theorem Goes.of_old {r : Except Error Progress} {q : Session} (hg : v.Goes c r q w)
    (hs : v.session.settings.supersedes = true) (hold : c.generation ≠ v.session.generation) :
    w = v.workspace ∧ q.output.lines = v.session.output.lines := by
  obtain ⟨rfl, hw, -⟩ := hg.stale hs hold
  exact ⟨hw, rfl⟩

/-- A cycle that comes to another wait is the newest one, and the steps up to there are added to
those whose lines have been put out. -/
theorem Orderly.paused (h : v.Orderly) {cs : List Cycle} {q : Session} {pause : Pause}
    {pending : List Op} (hperm : v.cycles.Perm (c :: cs))
    (hg : v.Goes c (.ok (.paused pause pending)) q w) (hw : w.Filed) :
    Orderly ⟨q, w, { c with pending } :: cs⟩ := by
  have hcs := h.perm hperm
  have hc := hcs.underway c List.mem_cons_self
  have hnewest : c.generation = v.session.generation := by
    by_contra hold
    cases ((hg.stale h.supersedes hold).2.2 _ rfl).1
  obtain ⟨hlit, ran, e, hpending, hspeak⟩ := hg.newest h hc hnewest (hcs.lit_first hnewest)
  obtain ⟨before, hops, hbefore⟩ := hcs.spoken c List.mem_cons_self hnewest
  have hops : c.program.ops = before ++ (ran ++ [.sleep e]) ++ pending := by
    rw [hops, hpending]
    simp
  obtain ⟨lines, rfl⟩ := hg.session_eq
  refine hcs.moved (v.session.goes_said lines) rfl (hc.further hpending) rfl hw
    (fun hold => absurd hnewest hold) fun _ => ⟨hlit, _, hops, ?_⟩
  exact (speak_append_of_ok hbefore).trans hspeak

/-- A cycle that fails restores all highlights where it is the newest one. -/
theorem Orderly.failed (h : v.Orderly) {cs : List Cycle} {q : Session} {w' : Workspace} {e : Error}
    (hperm : v.cycles.Perm (c :: cs)) (hg : v.Goes c (.error e) q w)
    (hw : w.Cleared (q.settings.supersedes && c.generation = q.generation) w') :
    Orderly ⟨q.faulted e, w', cs⟩ := by
  have hfiled := hw.filed (hg.filed h.filed)
  have hold := hg.of_old h.supersedes
  obtain ⟨lines, rfl⟩ := hg.session_eq
  change w.Cleared (v.session.settings.supersedes &&
    decide (c.generation = v.session.generation)) w' at hw
  rw [h.supersedes, Bool.true_and] at hw
  refine (h.perm hperm).ended (v.session.goes_faulted lines e) (fun r hr => .inl hr) hfiled
    (fun hne => ?_) fun hnew => ?_
  · rw [decide_eq_false hne] at hw
    exact ⟨(show w' = w from hw).trans (hold hne).1, (hold hne).2⟩
  · rw [decide_eq_true hnew] at hw
    exact hw.2

/-- **Whatever is done, a stage stays orderly.** -/
theorem Move.orderly (hm : Move v v') (h : v.Orderly) : v'.Orderly := by
  have hsound := hm.sound h.toSound
  have cleared {w : Workspace} (hw : v.workspace.Cleared v.session.settings.supersedes w) :
      w.Filed ∧ w.Unlit := by
    rwa [h.supersedes] at hw
  cases hm with
  | edited hw => exact { h with filed := hsound.filed, lit := hw.litWithin h.lit }
  | paced hp => exact { h with fair := hp }
  | @woken c cs broken hperm hb =>
      have h := h.perm hperm
      have hc := h.underway c List.mem_cons_self
      exact h.moved (.refl _) rfl ⟨hc.made, hc.come, hb⟩ rfl h.filed (fun _ => ⟨rfl, rfl⟩)
        fun hnew => ⟨h.lit_first hnew, h.spoken c List.mem_cons_self hnew⟩
  | renewed hw => exact h.renewed (cleared hw).1 (cleared hw).2
  | begun hw hp => exact h.begun (cleared hw).1 (cleared hw).2 hp
  | @finished c cs q w hperm hg =>
      have hcs := h.perm hperm
      have hc := hcs.underway c List.mem_cons_self
      have hold := hg.of_old h.supersedes
      have hnew hnew := (hg.newest h hc hnew (hcs.lit_first hnew)).1
      obtain ⟨lines, rfl⟩ := hg.session_eq
      refine hcs.ended (v.session.goes_completed lines c) (fun r hr => ?_) hsound.filed hold hnew
      refine (List.mem_append.mp hr).imp_right fun hr => ?_
      rw [List.mem_singleton.mp hr]
  | paused hperm hg => exact h.paused hperm hg hsound.filed
  | @superseded c cs q w e hperm he hg =>
      have hcs := h.perm hperm
      have hc := hcs.underway c List.mem_cons_self
      have hold := hg.of_old h.supersedes
      -- the newest cycle fails by a fault only
      have hnew (hnew : c.generation = v.session.generation) : False := by
        have := (hg.newest h hc hnew (hcs.lit_first hnew)).1
        rw [he] at this
        cases this
      obtain ⟨lines, rfl⟩ := hg.session_eq
      exact hcs.ended (v.session.goes_said lines) (fun r hr => .inl hr) hsound.filed hold
        fun h => (hnew h).elim
  | failed hperm he hg hw => exact h.failed hperm hg hw

theorem Leads.generation_le (h : v.Leads v') : v.session.generation ≤ v'.session.generation := by
  induction h with
  | refl => exact Nat.le_refl _
  | tail _ hm ih => exact Nat.le_trans ih hm.generation_le

theorem Leads.orderly (h : v.Leads v') (hv : v.Orderly) : v'.Orderly := by
  induction h with
  | refl => exact hv
  | tail _ hm ih => exact hm.orderly ih

/-! ### What has been put out -/

/-- A cycle that is under way has no result yet. -/
theorem Orderly.result_ne (h : v.Orderly) {r : Completion} (hr : r ∈ v.session.results)
    (hc : c ∈ v.cycles) : r.generation ≠ .int c.generation := by
  obtain ⟨g, hg, -, hne⟩ := h.settled r hr
  rw [hg, ne_eq, Value.int.injEq, Int.natCast_inj]
  exact fun he => hne c hc he.symm

/-- What has been put out of a program that was the newest cycle's, as long as no newer cycle
begins: the cycle is under way, or it is over, with the lines of as many steps as it came to. -/
def Told (g : Nat) (p : Program) (v : Stage) : Prop :=
  g ≤ v.session.generation ∧ (v.session.generation = g →
    (∃ c ∈ v.cycles, c.generation = g ∧ c.program = p) ∨
    (∀ c ∈ v.cycles, c.generation ≠ g) ∧ ∃ ran, ran <+: p.ops ∧
      v.session.output.lines = stateAfter (speak p.definitions ran) #[] ∧
      ((∃ r ∈ v.session.results, r.generation = .int g) → ran = p.ops))

variable {g : Nat} {p : Program}

/-- The order of the cycles does not matter. -/
theorem Told.perm (h : v.Told g p) {cs : List Cycle} (hp : v.cycles.Perm cs) :
    Told g p { v with cycles := cs } := by
  refine ⟨h.1, fun hg => (h.2 hg).imp (fun ⟨c, hc, hcg⟩ => ⟨c, hp.mem_iff.mp hc, hcg⟩) ?_⟩
  exact fun ⟨hne, hran⟩ => ⟨fun c hc => hne c (hp.mem_iff.mpr hc), hran⟩

/-- The first cycle has come further. -/
theorem Told.moved {q q' : Session} {w' : Workspace} {d : Cycle} {cs : List Cycle}
    (ht : Told g p ⟨q, w, c :: cs⟩) (hg : q'.generation = q.generation)
    (hr : q'.results = q.results) (hd : d.generation = c.generation) (hp : d.program = c.program)
    (hold : c.generation ≠ q.generation → q'.output.lines = q.output.lines) :
    Told g p ⟨q', w', d :: cs⟩ := by
  refine ⟨hg ▸ ht.1, fun he => ?_⟩
  have heq : q.generation = g := hg.symm.trans he
  obtain ⟨e, he, heg, hep⟩ | ⟨hne, ran, hran, hlines, hall⟩ := ht.2 heq
  · rcases List.mem_cons.mp he with rfl | he
    · exact .inl ⟨d, List.mem_cons_self, hd.trans heg, hp.trans hep⟩
    · exact .inl ⟨e, List.mem_cons_of_mem d he, heg, hep⟩
  · rw [List.forall_mem_cons, ← hd] at hne
    refine .inr ⟨List.forall_mem_cons.mpr hne, ran, hran, ?_, fun h => hall (hr ▸ h)⟩
    exact (hold (by rw [← hd, heq]; exact hne.1)).trans hlines

/-- Newer cycles are none of its business. -/
theorem Told.newer (h : v.Told g p) (hn : v'.session.generation = v.session.generation + 1) :
    v'.Told g p :=
  ⟨hn ▸ Nat.le_succ_of_le h.1, fun hg => absurd (hg ▸ h.1) (by omega)⟩

section

variable {q : Session} {cs : List Cycle} (h : Orderly ⟨q, w, c :: cs⟩)
  (ht : Told g p ⟨q, w, c :: cs⟩)

include h ht

/-- The first cycle is over. -/
theorem Told.ended {q' : Session} {w' : Workspace} (hg : q'.generation = q.generation)
    (hr : ∀ r ∈ q'.results, r ∈ q.results ∨ r.generation = .int c.generation)
    (hold : c.generation ≠ q.generation → q'.output.lines = q.output.lines)
    (hnew : c.generation = q.generation → ∃ ran, ran <+: c.program.ops ∧
      q'.output.lines = stateAfter (speak c.program.definitions ran) #[] ∧
      ((∃ r ∈ q'.results, r.generation = .int c.generation) → ran = c.program.ops)) :
    Told g p ⟨q', w', cs⟩ := by
  refine ⟨hg ▸ ht.1, fun he => ?_⟩
  have heq : q.generation = g := hg.symm.trans he
  obtain ⟨d, hd, hdg, rfl⟩ | ⟨hne, ran, hran, hlines, hall⟩ := ht.2 heq
  · rcases List.mem_cons.mp hd with rfl | hd
    · -- the cycle that is over is the one
      refine .inr ⟨fun d hd hdg' => h.generation_ne hd (hdg'.trans hdg.symm), ?_⟩
      rw [← hdg]
      exact hnew (hdg.trans heq.symm)
    · exact .inl ⟨d, hd, hdg, rfl⟩
  · have hc : c.generation ≠ g := hne c List.mem_cons_self
    refine .inr ⟨fun d hd => hne d (List.mem_cons_of_mem c hd), ran, hran, ?_, ?_⟩
    · exact (hold (heq ▸ hc)).trans hlines
    · rintro ⟨r, hr', hrg⟩
      obtain hr' | hr' := hr r hr'
      · exact hall ⟨r, hr', hrg⟩
      · rw [hrg, Value.int.injEq, Int.natCast_inj] at hr'
        exact absurd hr'.symm hc

end

/-- Where the newest cycle ends with an error, it has put out the lines of the steps that it came
to. -/
theorem Orderly.exists_ran (h : v.Orderly) {cs : List Cycle} {e : Error} {q : Session}
    (hperm : v.cycles.Perm (c :: cs)) (hg : v.Goes c (.error e) q w)
    (hnew : c.generation = v.session.generation) : ∃ ran, ran <+: c.program.ops ∧
      q.output.lines = stateAfter (speak c.program.definitions ran) #[] ∧
      ((∃ r ∈ v.session.results, r.generation = .int c.generation) → ran = c.program.ops) := by
  have hcs := h.perm hperm
  obtain ⟨-, ran, hran, hlines⟩ :=
    hg.newest h (hcs.underway c List.mem_cons_self) hnew (hcs.lit_first hnew)
  obtain ⟨before, hops, hspeak⟩ := hcs.spoken c List.mem_cons_self hnew
  refine ⟨before ++ ran, ?_, ?_, fun ⟨r, hr, hrg⟩ => ?_⟩
  · rw [hops]
    exact (List.prefix_append_right_inj before).mpr hran
  · rw [hlines, stateAfter, stateAfter, speak_append_of_ok hspeak]
  · exact absurd hrg (hcs.result_ne hr List.mem_cons_self)

/-- The first cycle has ended with an error. -/
theorem Told.failed (ht : v.Told g p) (h : v.Orderly) {cs : List Cycle} {e : Error} {q q' : Session}
    {w' : Workspace} (hperm : v.cycles.Perm (c :: cs)) (hg : v.Goes c (.error e) q w)
    (hq : q'.generation = q.generation) (hr : q'.results = q.results) (ho : q'.output = q.output) :
    Told g p ⟨q', w', cs⟩ := by
  have hcs := h.perm hperm
  have hold hold := (hg.of_old h.supersedes hold).2
  have hnew := h.exists_ran hperm hg
  obtain ⟨lines, rfl⟩ := hg.session_eq
  exact (ht.perm hperm).ended hcs hq (fun r hr' => .inl (hr ▸ hr')) (ho ▸ hold) (hr ▸ ho ▸ hnew)

/-- What has been put out of a program can be told whatever is done. -/
theorem Move.told (hm : Move v v') (h : v.Orderly) (ht : v.Told g p) : v'.Told g p := by
  -- a cycle that is not the newest one puts nothing out
  have still {c : Cycle} {r : Except Error Progress} {q : Session} {w : Workspace}
      (hg : v.Goes c r q w) (hold : c.generation ≠ v.session.generation) :
      q.output.lines = v.session.output.lines := (hg.of_old h.supersedes hold).2
  cases hm with
  | edited => exact ht
  | paced => exact ht
  | woken hperm => exact (ht.perm hperm).moved rfl rfl rfl rfl fun _ => rfl
  | renewed => exact ht.newer rfl
  | begun => exact ht.newer rfl
  | @finished c cs q w hperm hg =>
      have hcs := h.perm hperm
      have hold := still hg
      have hnew hnew := hg.newest h (hcs.underway c List.mem_cons_self) hnew (hcs.lit_first hnew)
      obtain ⟨lines, rfl⟩ := hg.session_eq
      refine (ht.perm hperm).ended hcs rfl (fun r hr => ?_) hold fun h => ?_
      · refine (List.mem_append.mp hr).imp_right fun hr => ?_
        rw [List.mem_singleton.mp hr]
      · obtain ⟨before, hops, hspeak⟩ := hcs.spoken c List.mem_cons_self h
        refine ⟨c.program.ops, List.prefix_rfl, ?_, fun _ => rfl⟩
        rw [hops, stateAfter, speak_append_of_ok hspeak, (hnew h).2]
        rfl
  | paused hperm hg =>
      have hold := still hg
      obtain ⟨lines, rfl⟩ := hg.session_eq
      exact (ht.perm hperm).moved rfl rfl rfl rfl hold
  | superseded hperm he hg => exact ht.failed h hperm hg rfl rfl rfl
  | failed hperm he hg hw => exact ht.failed h hperm hg rfl rfl rfl

theorem Leads.told (hl : v.Leads v') (h : v.Orderly) (ht : v.Told g p) : v'.Told g p := by
  induction hl with
  | refl => exact ht
  | tail hl hm ih => exact hm.told (Leads.orderly hl h) ih

/-- What is put out are the lines of the first steps of the program, and of all its steps once there
is a result. -/
theorem Told.lines (ht : v.Told g p) (h : v.Orderly) (hg : v.session.generation = g) :
    ∃ ran, ran <+: p.ops ∧
      v.session.output.lines = stateAfter (speak p.definitions ran) #[] ∧
      ((∃ r ∈ v.session.results, r.generation = .int g) → ran = p.ops) := by
  obtain ⟨c, hc, hcg, rfl⟩ | ⟨-, hran⟩ := ht.2 hg
  · obtain ⟨ran, hops, hspeak⟩ := h.spoken c hc (hcg.trans hg.symm)
    refine ⟨ran, ⟨c.pending, hops.symm⟩, by rw [stateAfter, hspeak], fun ⟨r, hr, hrg⟩ => ?_⟩
    exact absurd (hcg ▸ hrg) (h.result_ne hr hc)
  · exact hran

end Stage

end Blockwork
