import Blockwork.Proofs.Superseding
import Blockwork.Proofs.Tinting

/-!
# What cycles leave as it is

Cycles that go on, fail or end do not edit the workspace: they change the colours of blocks, write
to the log, and put out lines (`Scene.Idles`).  So it is with whatever happens on the event loop
(`Scene.keeps_turn`).  A new cycle besides gives the session another number, and shows a program of
the workspace if there is one (`Scene.ends_runCode`).  Either way the workspace is stored as the same
text, and what listeners have heard is the same (`Scene.Drifts`).
-/

namespace Blockwork

/-- Whether a host comes of another one by notes in the log. -/
def Host.Noted (h h' : Host) : Prop := ∃ more : Array LogEntry, h' = { h with log := h.log ++ more }

namespace Host.Noted

variable {h h' h'' : Host}

theorem refl (h : Host) : h.Noted h := ⟨#[], by rw [Array.append_empty]⟩

theorem note (hn : h.Noted h') (level : Level) (area : Area) (text : String) :
    h.Noted (h'.note level area text) := by
  obtain ⟨more, rfl⟩ := hn
  refine ⟨more.push ⟨level, area, text⟩, ?_⟩
  rw [Array.append_push]
  rfl

theorem trans (hn : h.Noted h') (hn' : h'.Noted h'') : h.Noted h'' := by
  obtain ⟨more, rfl⟩ := hn
  obtain ⟨more', rfl⟩ := hn'
  exact ⟨more ++ more', by rw [← Array.append_assoc]⟩

end Host.Noted

/-- Whether a session comes of another one by what its cycles do. -/
def Session.Rests (q q' : Session) : Prop :=
  ∃ pacing output fault mishap results, q' = { q with pacing, output, fault, mishap, results }

theorem Session.Rests.refl (q : Session) : q.Rests q := ⟨_, _, _, _, _, rfl⟩

theorem Session.Rests.trans {q q' q'' : Session} (h : q.Rests q') (h' : q'.Rests q'') :
    q.Rests q'' := by
  obtain ⟨_, _, _, _, _, rfl⟩ := h
  obtain ⟨_, _, _, _, _, rfl⟩ := h'
  exact ⟨_, _, _, _, _, rfl⟩

namespace Scene

open Session (Rests)

/-- Whether a scene with one session comes of another one by what cycles do. -/
structure Idles (s t : Scene Desk) : Prop where
  workspace : s.workspace.Recoloured t.workspace
  host : s.host.Noted t.host
  sessions : ∀ q, s.audience.sessions = [q] → ∃ q', t.audience.sessions = [q'] ∧ q.Rests q'
  listeners : t.audience.listeners = s.audience.listeners
  heard : t.audience.heard = s.audience.heard
  loop : t.audience.loop = s.audience.loop
  cycles : ∀ c ∈ t.cycles, ∃ c' ∈ s.cycles, c'.generation = c.generation

variable {s t : Scene Desk}

namespace Idles

theorem refl (s : Scene Desk) : s.Idles s where
  workspace := .refl
  host := .refl _
  sessions q hq := ⟨q, hq, .refl q⟩
  listeners := rfl
  heard := rfl
  loop := rfl
  cycles c hc := ⟨c, hc, rfl⟩

theorem elsewhere (h : s.Idles t) {host : Host} (hn : t.host.Noted host) :
    s.Idles { t with host } :=
  ⟨h.workspace, h.host.trans hn, h.sessions, h.listeners, h.heard, h.loop, h.cycles⟩

theorem note (h : s.Idles t) (level : Level) (area : Area) (text : String) :
    s.Idles { t with host := t.host.note level area text } :=
  h.elsewhere ((Host.Noted.refl _).note level area text)

theorem update (h : s.Idles t) (number : Nat) {f : Session → Session}
    (hf : ∀ q : Session, q.Rests (f q)) :
    s.Idles { t with audience := t.audience.updateSession number f } where
  workspace := h.workspace
  host := h.host
  sessions q hq := by
    obtain ⟨q', hq', hrests⟩ := h.sessions q hq
    change ∃ q', t.audience.sessions.modify number f = [q'] ∧ _
    rw [hq']
    cases number with
    | zero => exact ⟨f q', rfl, hrests.trans (hf q')⟩
    | succ n => exact ⟨q', by simp, hrests⟩
  listeners := h.listeners
  heard := h.heard
  loop := h.loop
  cycles := h.cycles

/-- Other cycles with no other numbers. -/
theorem queued (h : s.Idles t) {ready waiting : List Cycle}
    (hc : ∀ c ∈ ready ++ waiting, ∃ c' ∈ s.cycles, c'.generation = c.generation) :
    s.Idles { t with audience := { t.audience with ready, waiting } } :=
  ⟨h.workspace, h.host, h.sessions, h.listeners, h.heard, h.loop, hc⟩

theorem newest_eq (h : s.Idles t) {q : Session} (hq : s.audience.sessions = [q]) :
    t.newest = s.newest := by
  obtain ⟨_, hq', _, _, _, _, _, rfl⟩ := h.sessions q hq
  rw [newest, newest, hq, hq']
  rfl

end Idles

/-! ### Runs -/

/-- What highlighting leaves as it is, whatever is seen. -/
theorem spares_recoloured (w : Workspace) (h : Host) :
    Highlighter.Spares fun s => w.Recoloured s.workspace ∧ h.Noted s.host where
  seen _ hs := hs
  noted _ _ _ hs := ⟨hs.1, hs.2.note _ _ _⟩
  coloured k colour saved hs := ⟨hs.1.tail ⟨k, colour, saved, rfl⟩, hs.2⟩

/-- A part of a run that leaves as it is what highlighting does. -/
theorem keeps_traced (number : Nat) {α : Type} {r : Run α}
    (hr : ∀ P, Highlighter.Spares P → Keeps P r) : Keeps s.Idles (Act.traced number r) := by
  intro t ht
  have back {u : Scene Trace} (hu : t.workspace.Recoloured u.workspace ∧ t.host.Noted u.host) :
      s.Idles { u with audience := t.audience.withTrace number u.audience } :=
    have hshown := ht.update number
      (f := fun q => { q with output := { q.output with lines := u.audience.lines } })
      fun _ => ⟨_, _, _, _, _, rfl⟩
    ⟨ht.workspace.trans hu.1, ht.host.trans hu.2, hshown.sessions, hshown.listeners, hshown.heard,
      hshown.loop, hshown.cycles⟩
  exact Act.ends_traced ((hr _ (spares_recoloured t.workspace t.host)
    { t with audience := t.audience.trace number } ⟨.refl, .refl _⟩).mono
      (fun _ _ hu => back hu) fun _ _ hu => back hu)

theorem keeps_traced_restoreAll (number : Nat) (h : Highlighter) :
    Keeps s.Idles (Act.traced number h.restoreAll) :=
  keeps_traced number fun _ hP => h.keeps_restoreAll (hP.keeps_restore h)

theorem keeps_traced_proceed (number : Nat) (q : Session) (c : Cycle) :
    Keeps s.Idles (Act.traced number (Session.proceed q c)) := by
  refine keeps_traced number fun P hP => ?_
  unfold Session.proceed
  split
  · exact Keeps.throw _
  · exact keeps_steps hP.seen (fun h _ => hP.keeps_activate h) (fun h _ => hP.keeps_restore h) _ _

/-! ### The event loop -/

theorem keeps_fail (c : Cycle) (e : Error) : Keeps s.Idles (Session.fail c e) := by
  intro t ht
  have hfault := ht.update c.session (f := fun q => { q with fault := some e })
    fun _ => ⟨_, _, _, _, _, rfl⟩
  unfold Session.fail Session.noteError
  refine Ends.bind (Ends.modify (Ends.bind (Ends.modify (Ends.bind ?_))))
  refine Ends.bind (Ends.get (Ends.pure ?_))
  split
  · split
    · refine Ends.bind (Act.keeps_attempt (keeps_traced_restoreAll _ _) _ (hfault.note _ _ _) |>.mono
        (fun r u hu => ?_) fun _ _ hu => hu)
      split
      · exact Ends.pure hu
      · exact Ends.modify (hu.update c.session fun _ => ⟨_, _, _, _, _, rfl⟩)
    · exact Ends.pure (hfault.note _ _ _)
  · exact Ends.pure (hfault.note _ _ _)

theorem keeps_resume {c : Cycle} (hc : ∃ c' ∈ s.cycles, c'.generation = c.generation) :
    Keeps s.Idles (Session.resume c) := by
  intro t ht
  unfold Session.resume
  refine Ends.bind (Ends.bind (Ends.get (Ends.pure ?_)))
  split
  · refine Ends.bind (Act.keeps_attempt (keeps_traced_proceed _ _ c) _ ht |>.mono (fun r u hu => ?_)
      fun _ _ hu => hu)
    -- a cycle that pauses stands in line again under its own number
    have again (pending : List Op) :
        ∀ d ∈ u.cycles ++ [{ c with pending }], ∃ c' ∈ s.cycles, c'.generation = d.generation := by
      intro d hd
      rcases List.mem_append.mp hd with hd | hd
      · exact hu.cycles d hd
      · obtain rfl := List.mem_singleton.mp hd
        exact hc
    split
    · exact Ends.modify (hu.update c.session fun _ => ⟨_, _, _, _, _, rfl⟩)
    · rename_i pending
      refine Ends.modify (hu.queued fun d hd => again pending d ?_)
      rwa [cycles, List.append_assoc]
    · rename_i pending _
      refine Ends.modify (hu.queued fun d hd => again pending d ?_)
      simpa [cycles, or_assoc, or_comm, or_left_comm] using hd
    · exact Ends.pure hu
    · exact keeps_fail c _ u hu
  · exact Ends.pure ht

/-- **A turn of the event loop edits nothing.** -/
theorem keeps_turn : Keeps s.Idles Session.turn := by
  intro t ht
  unfold Session.turn
  refine Ends.bind (Ends.get ?_)
  split
  · exact Ends.pure ht
  · rename_i c ready hready
    have hmem (d : Cycle) (hd : d ∈ c :: (ready ++ t.audience.waiting)) : d ∈ t.cycles := by
      rw [cycles, hready]
      exact hd
    refine Ends.bind (Ends.modify (keeps_resume (ht.cycles c (hmem c List.mem_cons_self)) _ ?_))
    exact ht.queued fun d hd => ht.cycles d (hmem d (List.mem_cons_of_mem _ hd))

theorem keeps_wake (place : Nat) (broken : Option Error) :
    Keeps s.Idles (Session.wake place broken) := by
  intro t ht
  refine Ends.modify (ht.queued fun d hd => ?_)
  have old {d : Cycle} (hd : d ∈ t.audience.ready ∨ d ∈ t.audience.waiting) :=
    ht.cycles d (List.mem_append.mpr hd)
  rcases List.mem_append.mp hd with hd | hd
  · rcases List.mem_append.mp hd with hd | hd
    · exact old (.inl hd)
    · obtain ⟨c, hc, rfl⟩ := Option.map_eq_some_iff.mp (Option.mem_toList.mp hd)
      exact ht.cycles c (List.mem_append_right _ (List.mem_of_getElem? hc))
  · exact old (.inr (List.mem_of_mem_eraseIdx hd))

theorem keeps_pace (pacing : Pacing) :
    Keeps s.Idles (Act.arrange (·.updateSession 0 ({ · with pacing }))) := fun _ ht =>
  Ends.modify (ht.update 0 fun _ => ⟨_, _, _, _, _, rfl⟩)

/-! ### New cycles -/

/-- The scene with the next number given to its session. -/
def renewed (s : Scene Desk) (q : Session) : Scene Desk :=
  { s with audience := { s.audience with sessions := [q.renewed] } }

/-- The scene with a program shown, whose cycle stands in line. -/
def launched (s : Scene Desk) (generation : Nat) (p : Program) (text : String) : Scene Desk :=
  { s with audience :=
    { s.audience.updateSession 0 (·.showing text) with
      ready := s.audience.ready ++ [⟨0, generation, p, p.ops, none⟩] } }

/-- **What a new cycle does.**  Where there is no event loop nothing is done.  Otherwise the session
has its next number, and the program that is shown is that of the workspace, if it has one, which is
the answer. -/
theorem ends_runCode {q : Session} (hq : s.audience.sessions = [q]) :
    Ends (Session.runCode 0) s
      (fun made t => made = false ∧ (s.renewed q).Idles t ∨
        made = true ∧ ∃ u p text, (s.renewed q).Idles u ∧
          Session.prepare q.compiler u.workspace = .ok (p, text) ∧
            t = u.launched (q.generation + 1) p text)
      fun _ t => s.audience.loop = false ∧ t = s ∨ (s.renewed q).Idles t := by
  unfold Session.runCode
  refine Ends.bind (Ends.get ?_)
  cases hloop : s.audience.loop with
  | false => exact Ends.bind (Ends.throw (.inl ⟨rfl, rfl⟩))
  | true =>
      have hnumber : (s.renewed q).Idles { s with
          audience := s.audience.updateSession 0 ({ · with generation := q.generation + 1 }) } := by
        rw [Desk.updateSession, hq]
        exact .refl _
      refine Ends.bind (Ends.bind (Ends.get (Ends.pure ?_)))
      rw [hq]
      refine Ends.bind (Ends.modify (Ends.skip (P := (s.renewed q).Idles) (fun _ => ?_)
        (fun _ => hnumber) fun u hu => ?_))
      · exact (keeps_traced_restoreAll 0 _ _ hnumber).mono (fun _ _ ht => ht) fun _ _ ht => .inr ht
      · refine Ends.bind (Ends.get ?_)
        split
        · rename_i p text hp
          exact Ends.bind (Ends.modify (Ends.pure (.inr ⟨rfl, u, p, text, hu, hp, rfl⟩)))
        · split
          · exact Ends.bind (Ends.modify (Ends.pure (.inl ⟨rfl, hu.note _ _ _⟩)))
          · exact Ends.throw (.inr hu)

/-! ### What is the same ever after -/

/-- Whether no cycle has a number that is still to come. -/
def UpTo (s : Scene Desk) : Prop := ∀ c ∈ s.cycles, c.generation ≤ s.newest

/-- Whether a scene comes of another one by cycles that are started and go on. -/
structure Drifts (s t : Scene Desk) : Prop where
  workspace : s.workspace.Recoloured t.workspace
  host : s.host.Noted t.host
  sessions : ∀ q, s.audience.sessions = [q] → ∃ q', t.audience.sessions = [q'] ∧
    q'.archive = q.archive ∧ q'.compiler = q.compiler
  listeners : t.audience.listeners = s.audience.listeners
  heard : t.audience.heard = s.audience.heard
  loop : t.audience.loop = s.audience.loop
  newest : s.newest ≤ t.newest
  upTo : s.UpTo → t.UpTo

theorem Idles.drifts (h : s.Idles t) {q : Session} (hq : s.audience.sessions = [q]) :
    s.Drifts t where
  workspace := h.workspace
  host := h.host
  sessions q hq := by
    obtain ⟨q', hq', _, _, _, _, _, rfl⟩ := h.sessions q hq
    exact ⟨_, hq', rfl, rfl⟩
  listeners := h.listeners
  heard := h.heard
  loop := h.loop
  newest := (h.newest_eq hq).ge
  upTo hs c hc := by
    obtain ⟨c', hc', hgen⟩ := h.cycles c hc
    rw [← hgen, h.newest_eq hq]
    exact hs c' hc'

theorem Drifts.trans {u : Scene Desk} (h : s.Drifts t) (h' : t.Drifts u) : s.Drifts u where
  workspace := h.workspace.trans h'.workspace
  host := h.host.trans h'.host
  sessions q hq := by
    obtain ⟨q', hq', harchive, hcompiler⟩ := h.sessions q hq
    obtain ⟨q'', hq'', harchive', hcompiler'⟩ := h'.sessions q' hq'
    exact ⟨q'', hq'', harchive'.trans harchive, hcompiler'.trans hcompiler⟩
  listeners := h'.listeners.trans h.listeners
  heard := h'.heard.trans h.heard
  loop := h'.loop.trans h.loop
  newest := h.newest.trans h'.newest
  upTo hs := h'.upTo (h.upTo hs)

theorem newest_renewed (s : Scene Desk) (q : Session) : (s.renewed q).newest = q.generation + 1 :=
  rfl

theorem newest_singleton {q : Session} (hq : s.audience.sessions = [q]) :
    s.newest = q.generation := by
  rw [newest, hq]
  rfl

theorem drifts_renewed {q : Session} (hq : s.audience.sessions = [q]) : s.Drifts (s.renewed q) where
  workspace := .refl
  host := .refl _
  sessions q' hq' := by
    obtain rfl : q = q' := List.cons.inj (hq.symm.trans hq') |>.1
    exact ⟨_, rfl, rfl, rfl⟩
  listeners := rfl
  heard := rfl
  loop := rfl
  newest := by
    rw [newest_renewed, newest_singleton hq]
    exact Nat.le_succ _
  upTo hs c hc := by
    rw [newest_renewed, ← newest_singleton hq]
    exact Nat.le_succ_of_le (hs c hc)

theorem newest_launched {q : Session} (hq : s.audience.sessions = [q]) (generation : Nat)
    (p : Program) (text : String) : (s.launched generation p text).newest = q.generation := by
  change ((s.audience.sessions.modify 0 (·.showing text))[0]?.map (·.generation)).getD 0 = _
  rw [hq]
  rfl

theorem drifts_launched {q : Session} (hq : s.audience.sessions = [q]) (p : Program)
    (text : String) : s.Drifts (s.launched q.generation p text) where
  workspace := .refl
  host := .refl _
  sessions q' hq' := by
    refine ⟨q'.showing text, ?_, rfl, rfl⟩
    change s.audience.sessions.modify 0 _ = _
    rw [hq']
    rfl
  listeners := rfl
  heard := rfl
  loop := rfl
  newest := by rw [newest_launched hq, newest_singleton hq]
  upTo hs c hc := by
    have hnew := hs c
    rw [newest_singleton hq] at hnew
    rw [newest_launched hq]
    rw [cycles, launched, List.append_assoc, List.mem_append, List.singleton_append,
      List.mem_cons] at hc
    rcases hc with hc | rfl | hc
    · exact hnew (List.mem_append_left _ hc)
    · exact Nat.le_refl _
    · exact hnew (List.mem_append_right _ hc)

/-- A new cycle, however it ends. -/
theorem drifts_runCode {q : Session} (hq : s.audience.sessions = [q]) :
    Ends (Session.runCode 0) s (fun _ t => s.Drifts t) fun _ t => t = s ∨ s.Drifts t := by
  have idle {t : Scene Desk} (ht : (s.renewed q).Idles t) : s.Drifts t :=
    (drifts_renewed hq).trans (ht.drifts rfl)
  refine (ends_runCode hq).mono (fun _ t ht => ?_) fun _ t ht => ht.imp (·.2) idle
  obtain ⟨-, ht⟩ | ⟨-, u, p, text, hu, -, rfl⟩ := ht
  · exact idle ht
  · obtain ⟨q', hq', _, _, _, _, _, rfl⟩ := hu.sessions _ rfl
    exact (idle hu).trans (drifts_launched hq' p text)

end Scene

end Blockwork
