import Blockwork.Proofs.Enduring
import Blockwork.Proofs.Highlighting
import Mathlib.Data.List.Perm.Basic

/-!
# What happens at a desk

The desk of one session, as far as its cycles go: a `Stage` is the session, the workspace and the
cycles that are under way.  Whatever is done at the desk
comes down to a few `Move`s: the workspace is edited, a wait ends, a new cycle is begun, with a
program or without one, and a cycle goes on.  Each thing that can happen (`Session.Event`) comes of
such moves (`Session.Event.moves`), also when it fails, and however guests answer what they hear
with edits of their own.
-/

namespace Blockwork

open Relation (ReflTransGen)

namespace Workspace

variable {w w' : Workspace}

theorem Edited.filed (h : w.Edited w') (hw : w.Filed) : w'.Filed :=
  h Filed lasting_filed (fun _ _ h => h) hw

theorem Edited.litWithin (h : w.Edited w') {lit : Key → Prop} (hw : w.LitWithin lit) :
    w'.LitWithin lit :=
  h _ (lasting_litWithin lit) (fun _ _ h => h) hw

/-- Whether a workspace comes of another one by restoring all highlights, where that is done. -/
def Cleared (done : Bool) (w w' : Workspace) : Prop :=
  if done then w'.Filed ∧ w'.Unlit else w' = w

theorem Cleared.filed {done : Bool} (h : w.Cleared done w') (hw : w.Filed) : w'.Filed := by
  cases done with
  | true => exact h.1
  | false => exact h ▸ hw

end Workspace

/-! ### Moves -/

namespace Session

/-- The session with other lines put out. -/
def said (s : Session) (lines : Array Line) : Session :=
  { s with output := { s.output with lines } }

/-- The session with its next cycle. -/
def renewed (s : Session) : Session := { s with generation := s.generation + 1 }

/-- The session with a program shown. -/
def showing (s : Session) (text : String) : Session :=
  { s with lastText := text, code := s.code.write (.text text), output := s.output.clear }

/-- The session with the result of a cycle. -/
def completed (s : Session) (c : Cycle) : Session :=
  { s with results := s.results ++ [⟨.int c.generation, c.program.ops.length⟩] }

/-- The session with the error of a cycle. -/
def faulted (s : Session) (e : Error) : Session := { s with fault := some e }

end Session

/-- A session with its workspace and its cycles that are under way, in any order. -/
structure Stage where
  session : Session
  workspace : Workspace
  cycles : List Cycle

namespace Stage

/-- What comes of it when a cycle goes on: how far it comes, and the session and the workspace
then. -/
inductive Goes (v : Stage) (c : Cycle) : Except Error Progress → Session → Workspace → Prop where
  | ok {s t : Scene Trace} {p : Progress} : s.workspace = v.workspace →
      s.audience.lines = v.session.output.lines → Session.proceed v.session c s = .ok p t →
      Goes v c (.ok p) (v.session.said t.audience.lines) t.workspace
  | error {s t : Scene Trace} {e : Error} : s.workspace = v.workspace →
      s.audience.lines = v.session.output.lines → Session.proceed v.session c s = .error e t →
      Goes v c (.error e) (v.session.said t.audience.lines) t.workspace

/-- One thing that is done at a desk. -/
inductive Move : Stage → Stage → Prop where
  | edited {v : Stage} {w : Workspace} : v.workspace.Edited w → Move v { v with workspace := w }
  | paced {v : Stage} {p : Pacing} : p.Fair →
      Move v { v with session := { v.session with pacing := p } }
  /-- A wait ends, with a fault or without one. -/
  | woken {v : Stage} {c : Cycle} {cs : List Cycle} {broken : Option Error} :
      v.cycles.Perm (c :: cs) → (∀ e ∈ broken, e.isFault = true) →
      Move v { v with cycles := { c with broken } :: cs }
  /-- The program of a new cycle cannot be made. -/
  | renewed {v : Stage} {w : Workspace} : v.workspace.Cleared v.session.settings.supersedes w →
      Move v { v with session := v.session.renewed, workspace := w }
  /-- A new cycle stands in line. -/
  | begun {v : Stage} {w : Workspace} {p : Program} {text : String} :
      v.workspace.Cleared v.session.settings.supersedes w →
      Session.prepare v.session.compiler w = .ok (p, text) → Move v
        { session := v.session.renewed.showing text
          workspace := w
          cycles := ⟨0, v.session.generation + 1, p, p.ops, none⟩ :: v.cycles }
  | finished {v : Stage} {c : Cycle} {cs : List Cycle} {s : Session} {w : Workspace} :
      v.cycles.Perm (c :: cs) → v.Goes c (.ok .finished) s w → Move v ⟨s.completed c, w, cs⟩
  | paused {v : Stage} {c : Cycle} {cs : List Cycle} {s : Session} {w : Workspace} {pause : Pause}
      {pending : List Op} : v.cycles.Perm (c :: cs) → v.Goes c (.ok (.paused pause pending)) s w →
      Move v ⟨s, w, { c with pending } :: cs⟩
  | superseded {v : Stage} {c : Cycle} {cs : List Cycle} {s : Session} {w : Workspace}
      {e : Error} : v.cycles.Perm (c :: cs) → e.isFault = false → v.Goes c (.error e) s w →
      Move v ⟨s, w, cs⟩
  /-- A cycle ends with a fault; the newest one restores all highlights, if newer cycles supersede
  older ones. -/
  | failed {v : Stage} {c : Cycle} {cs : List Cycle} {s : Session} {w w' : Workspace} {e : Error} :
      v.cycles.Perm (c :: cs) → e.isFault = true → v.Goes c (.error e) s w →
      w.Cleared (s.settings.supersedes && c.generation = s.generation) w' →
      Move v ⟨s.faulted e, w', cs⟩

/-- Whether each block is found under its own id, the rules of the session are plain, and waits fail
by faults only. -/
structure Sound (v : Stage) : Prop where
  filed : v.workspace.Filed
  plain : v.session.compiler.Plain
  fair : v.session.pacing.Fair

variable {v v' : Stage} {c : Cycle} {r : Except Error Progress} {s : Session} {w : Workspace}

/-- What holds wherever a cycle comes that goes on. -/
theorem Goes.of_ends (h : v.Goes c r s w)
    {Q : Except Error Progress → Session → Workspace → Prop}
    (he : ∀ s : Scene Trace, s.workspace = v.workspace →
      s.audience.lines = v.session.output.lines → Ends (Session.proceed v.session c) s
        (fun p t => Q (.ok p) (v.session.said t.audience.lines) t.workspace)
        fun e t => Q (.error e) (v.session.said t.audience.lines) t.workspace) : Q r s w := by
  cases h with
  | ok hw hl hp => exact (Ends.of_ok hp).mp (he _ hw hl)
  | error hw hl hp => exact (Ends.of_error hp).mp (he _ hw hl)

/-- Going on changes no more of a session than the lines. -/
theorem Goes.session_eq (h : v.Goes c r s w) : ∃ lines, s = v.session.said lines := by
  cases h with
  | ok => exact ⟨_, rfl⟩
  | error => exact ⟨_, rfl⟩

theorem Goes.filed (h : v.Goes c r s w) (hv : v.workspace.Filed) : w.Filed := by
  refine h.of_ends (Q := fun _ _ w => w.Filed) fun s hs _ => ?_
  unfold Session.proceed
  split
  · exact Ends.throw (hs ▸ hv)
  · exact keeps_advance (fun h _ => h.keeping_filed) _ _ s
      (show s.workspace.Filed from hs ▸ hv)

theorem Move.sound (h : Move v v') (hv : v.Sound) : v'.Sound := by
  cases h with
  | edited h => exact ⟨h.filed hv.filed, hv.plain, hv.fair⟩
  | paced hp => exact ⟨hv.filed, hv.plain, hp⟩
  | woken => exact ⟨hv.filed, hv.plain, hv.fair⟩
  | renewed hw => exact ⟨hw.filed hv.filed, hv.plain, hv.fair⟩
  | begun hw _ => exact ⟨hw.filed hv.filed, hv.plain, hv.fair⟩
  | finished _ hg | paused _ hg | superseded _ _ hg =>
      obtain ⟨_, rfl⟩ := hg.session_eq
      exact ⟨hg.filed hv.filed, hv.plain, hv.fair⟩
  | failed _ _ hg hw =>
      obtain ⟨_, rfl⟩ := hg.session_eq
      exact ⟨hw.filed (hg.filed hv.filed), hv.plain, hv.fair⟩

/-- Whether a stage comes of another one by moves. -/
def Leads : Stage → Stage → Prop := ReflTransGen Move

theorem Leads.sound (h : v.Leads v') (hv : v.Sound) : v'.Sound := by
  induction h with
  | refl => exact hv
  | tail _ hm ih => exact hm.sound ih

theorem Leads.move {v'' : Stage} (h : v.Leads v') (hm : Move v' v'') : v.Leads v'' :=
  ReflTransGen.tail h hm

end Stage

/-! ### Scenes -/

/-- Whether a scene shows a stage. -/
structure Scene.Shows (s : Scene Desk) (v : Stage) : Prop where
  sessions : s.audience.sessions = [v.session]
  workspace : s.workspace = v.workspace
  cycles : (s.audience.ready ++ s.audience.waiting).Perm v.cycles
  own : ∀ c ∈ v.cycles, c.session = 0
  civil : ∀ g, .guest g ∈ s.audience.listeners → g.Civil

/-- The host does not matter. -/
theorem Scene.Shows.elsewhere {s : Scene Desk} {v : Stage} (hs : s.Shows v) (host : Host) :
    ({ s with host } : Scene Desk).Shows v :=
  ⟨hs.sessions, hs.workspace, hs.cycles, hs.own, hs.civil⟩

/-- Whether a scene shows a stage that comes of another one. -/
def Scene.From (v : Stage) (s : Scene Desk) : Prop := ∃ v', s.Shows v' ∧ v.Leads v'

theorem Scene.From.elsewhere {v : Stage} {s : Scene Desk} (host : Host) (h : s.From v) :
    ({ s with host } : Scene Desk).From v := by
  obtain ⟨v', hs, hv⟩ := h
  exact ⟨v', hs.elsewhere host, hv⟩

/-- A part of a run is done on the trace of its session. -/
theorem Act.ends_traced {number : Nat} {α : Type} {r : Run α} {s : Scene Desk}
    {good : α → Scene Desk → Prop} {bad : Error → Scene Desk → Prop}
    (h : Ends r { s with audience := s.audience.trace number }
      (fun a t => good a { t with audience := s.audience.withTrace number t.audience })
      fun e t => bad e { t with audience := s.audience.withTrace number t.audience }) :
    Ends (Act.traced number r) s good bad := by
  unfold Ends Act.traced at *
  cases hx : r { s with audience := s.audience.trace number } with
  | ok a t => rw [hx] at h; exact h
  | error e t => rw [hx] at h; exact h

/-! ### New cycles -/

/-- Whether the same cycles stand in line and wait at two desks. -/
def Scene.SameQueue (s t : Scene Desk) : Prop :=
  t.audience.ready = s.audience.ready ∧ t.audience.waiting = s.audience.waiting

/-- Whether a cycle stands last in line, behind those that stood there before. -/
def Scene.Joins (s t : Scene Desk) (c : Cycle) : Prop :=
  t.audience.ready = s.audience.ready ++ [c] ∧ t.audience.waiting = s.audience.waiting

namespace Scene.Shows

theorem perm_queue (c : Cycle) (ready waiting : List Cycle) :
    (ready ++ [c] ++ waiting).Perm (c :: (ready ++ waiting)) := by
  rw [List.append_assoc, List.singleton_append]
  exact List.perm_middle

variable {v : Stage} {s : Scene Desk} (hs : s.Shows v)

include hs

theorem update (f : Session → Session) :
    ({ s with audience := s.audience.updateSession 0 f } : Scene Desk).Shows
      { v with session := f v.session } where
  sessions := by
    change s.audience.sessions.modify 0 f = _
    rw [hs.sessions]
    rfl
  workspace := hs.workspace
  cycles := hs.cycles
  own := hs.own
  civil := hs.civil

/-- Other listeners change nothing of what a scene shows, as long as guests are civil. -/
theorem listeners {ls : List Listener} (hl : ∀ g, .guest g ∈ ls → g.Civil) :
    ({ s with audience := { s.audience with listeners := ls } } : Scene Desk).Shows v :=
  ⟨hs.sessions, hs.workspace, hs.cycles, hs.own, hl⟩

theorem session?_eq : s.audience.sessions[0]? = some v.session := by
  rw [hs.sessions]
  rfl

theorem ends_session? {good : Option Session → Scene Desk → Prop}
    {bad : Error → Scene Desk → Prop} (h : good (some v.session) s) :
    Ends (Act.session? 0) s good bad :=
  Ends.bind (Ends.get (Ends.pure (hs.session?_eq ▸ h)))

/-- Where a cycle stands in the queue does not matter. -/
theorem queued {d : Desk} {c : Cycle} (hc : c.session = 0)
    (hq : d.sessions = s.audience.sessions) (hl : d.listeners = s.audience.listeners)
    (hp : (d.ready ++ d.waiting).Perm (c :: (s.audience.ready ++ s.audience.waiting))) :
    ({ s with audience := d } : Scene Desk).Shows { v with cycles := c :: v.cycles } :=
  ⟨hq ▸ hs.sessions, hs.workspace, hp.trans (hs.cycles.cons _),
    List.forall_mem_cons.mpr ⟨hc, hs.own⟩, hl ▸ hs.civil⟩

/-- The turn of the first cycle in the queue. -/
theorem ends_turn {c : Cycle} {ready : List Cycle} (hc : s.audience.ready = c :: ready)
    {good : Unit → Scene Desk → Prop} {bad : Error → Scene Desk → Prop}
    (h : v.cycles.Perm (c :: (ready ++ s.audience.waiting)) → c.session = 0 →
      ({ s with audience := { s.audience with ready } } : Scene Desk).Shows
        { v with cycles := ready ++ s.audience.waiting } →
      Ends (Session.resume c) { s with audience := { s.audience with ready } } good bad) :
    Ends Session.turn s good bad := by
  have hperm : v.cycles.Perm (c :: (ready ++ s.audience.waiting)) := by
    have hcycles := hs.cycles.symm
    rwa [hc, List.cons_append] at hcycles
  have hown := List.forall_mem_cons.mp fun d hd => hs.own d (hperm.mem_iff.mpr hd)
  unfold Session.turn
  refine Ends.bind (Ends.get ?_)
  rw [hc]
  exact Ends.bind (Ends.modify (h hperm hown.1
    ⟨hs.sessions, hs.workspace, .refl _, hown.2, hs.civil⟩))

theorem ends_enqueue {n : Nat} {p : Program} {text : String} {good : Unit → Scene Desk → Prop}
    {bad : Error → Scene Desk → Prop}
    (h : ∀ t : Scene Desk, t.Shows ⟨v.session.showing text, v.workspace,
        ⟨0, n, p, p.ops, none⟩ :: v.cycles⟩ → t.audience.loop = s.audience.loop →
      s.Joins t ⟨0, n, p, p.ops, none⟩ → good () t) :
    Ends (Session.enqueue 0 n p text) s good bad :=
  Ends.modify (h _ ((hs.update (·.showing text)).queued rfl rfl rfl (perm_queue _ _ _)) rfl
    ⟨rfl, rfl⟩)

theorem ends_traced {α : Type} {r : Run α} {good : α → Scene Desk → Prop}
    {bad : Error → Scene Desk → Prop}
    (h : ∀ s' : Scene Trace, s'.workspace = v.workspace →
      s'.audience.lines = v.session.output.lines → Ends r s'
        (fun a t => ∀ u : Scene Desk, u.Shows { v with
          session := v.session.said t.audience.lines, workspace := t.workspace } →
            s.SameQueue u → good a u)
        fun e t => ∀ u : Scene Desk, u.Shows { v with
          session := v.session.said t.audience.lines, workspace := t.workspace } →
            s.SameQueue u → bad e u) :
    Ends (Act.traced 0 r) s good bad := by
  have hlines : (s.audience.trace 0).lines = v.session.output.lines := by
    rw [Desk.trace, Desk.linesOf, hs.session?_eq]
    rfl
  have shown (t : Scene Trace) : ({ t with
      audience := s.audience.withTrace 0 t.audience } : Scene Desk).Shows { v with
        session := v.session.said t.audience.lines, workspace := t.workspace } := by
    have hu := hs.update (·.said t.audience.lines)
    exact ⟨hu.sessions, rfl, hu.cycles, hu.own, hu.civil⟩
  exact Act.ends_traced ((h { s with audience := s.audience.trace 0 } hs.workspace hlines).mono
    (fun _ t ht => ht _ (shown t) ⟨rfl, rfl⟩) fun _ t ht => ht _ (shown t) ⟨rfl, rfl⟩)

/-- Restoring all highlights at the desk. -/
theorem ends_restoreAll (hv : v.workspace.Filed) (h : Highlighter) :
    Ends (Act.traced 0 h.restoreAll) s
      (fun _ t => ∃ w, v.workspace.Cleared true w ∧ t.Shows { v with workspace := w } ∧
        s.SameQueue t) fun _ _ => False := by
  refine hs.ends_traced fun s' hw hl => ?_
  refine (Highlighter.ends_restoreAll (hw ▸ hv)).mono (fun _ t ht u hu hq => ?_)
    fun _ _ he => he.elim
  obtain ⟨hf, hn, hlines⟩ := ht
  rw [hlines.trans hl] at hu
  exact ⟨t.workspace, ⟨hf, hn⟩, hu, hq⟩

end Scene.Shows

/-- What the start of a cycle leaves of a desk that shows a stage. -/
inductive Scene.Starts (s : Scene Desk) (v : Stage) : Scene Desk → Prop where
  /-- There is no event loop, or no such session. -/
  | idle : s.Starts v s
  | renewed {t : Scene Desk} {w : Workspace} :
      v.workspace.Cleared v.session.settings.supersedes w →
      t.Shows { v with session := v.session.renewed, workspace := w } → s.SameQueue t →
      s.Starts v t
  | begun {t : Scene Desk} {w : Workspace} {p : Program} {text : String} :
      v.workspace.Cleared v.session.settings.supersedes w →
      Session.prepare v.session.compiler w = .ok (p, text) →
      t.Shows {
        session := v.session.renewed.showing text
        workspace := w
        cycles := ⟨0, v.session.generation + 1, p, p.ops, none⟩ :: v.cycles } →
      s.Joins t ⟨0, v.session.generation + 1, p, p.ops, none⟩ → s.Starts v t

/-- **The start of a cycle**, whether it ends well or not. -/
theorem Scene.Shows.starts_runCode {v : Stage} {s : Scene Desk} (hs : s.Shows v)
    (hv : v.workspace.Filed) (number : Nat) :
    Ends (Session.runCode number) s (fun _ t => s.Starts v t) fun _ t => s.Starts v t := by
  unfold Session.runCode
  refine Ends.bind (Ends.get ?_)
  split
  · exact Ends.bind (Ends.throw .idle)
  · cases number with
    | succ n =>
        refine Ends.bind (Ends.bind (Ends.get (Ends.pure ?_)))
        rw [show s.audience.sessions[n + 1]? = none by rw [hs.sessions]; rfl]
        exact Ends.pure .idle
    | zero =>
        refine Ends.bind (hs.ends_session? ?_)
        dsimp only
        have hnew := hs.update fun s => { s with generation := v.session.generation + 1 }
        refine Ends.bind (Ends.modify (Ends.skip (P := fun t => ∃ w,
          v.workspace.Cleared v.session.settings.supersedes w ∧
            t.Shows { v with session := v.session.renewed, workspace := w } ∧ s.SameQueue t)
          (fun hsuper => ?_) (fun hsuper => ?_) fun t ht => ?_))
        · rw [hsuper]
          exact (hnew.ends_restoreAll hv _).mono (fun _ _ ht => ht) fun _ _ he => he.elim
        · rw [Bool.not_eq_true] at hsuper
          rw [hsuper]
          exact ⟨_, rfl, hnew, rfl, rfl⟩
        obtain ⟨w, hw, ht, hq⟩ := ht
        -- from here on there is a newer cycle, also where no program can be made
        have hfailed (host : Host) : s.Starts v { t with host } :=
          .renewed hw (ht.elsewhere host) hq
        refine Ends.bind (Ends.get ?_)
        split
        · rename_i p text hp
          rw [ht.workspace] at hp
          refine Ends.bind (ht.ends_enqueue fun u hu _ hjoins => Ends.pure (.begun hw hp hu ?_))
          rw [Scene.Joins, ← hq.1, ← hq.2]
          exact hjoins
        · split
          · exact Ends.bind (Ends.modify (Ends.pure (hfailed _)))
          · exact Ends.throw (hfailed t.host)

namespace Session

variable {v : Stage} {s : Scene Desk} (hv : v.Sound)

include hv

theorem keeps_runCode (number : Nat) : Keeps (Scene.From v) (runCode number) := by
  rintro s ⟨v', hs, hlead⟩
  have started {t : Scene Desk} (ht : s.Starts v' t) : t.From v := by
    cases ht with
    | idle => exact ⟨v', hs, hlead⟩
    | renewed hw ht => exact ⟨_, ht, hlead.move (.renewed hw)⟩
    | begun hw hp ht => exact ⟨_, ht, hlead.move (.begun hw hp)⟩
  exact (hs.starts_runCode (hlead.sound hv).filed number).mono (fun _ _ => started)
    fun _ _ => started

/-- What comes down to moves endures. -/
theorem enduring_from : Enduring (Scene.From v) where
  edited {_ w} hw := fun ⟨v', hs, hlead⟩ => ⟨{ v' with workspace := w },
    ⟨hs.sessions, rfl, hs.cycles, hs.own, hs.civil⟩, hlead.move (.edited (hs.workspace ▸ hw))⟩
  elsewhere host h := h.elsewhere host
  noted _ := fun ⟨v', hs, hlead⟩ =>
    ⟨v', ⟨hs.sessions, hs.workspace, hs.cycles, hs.own, hs.civil⟩, hlead⟩
  seated hl := fun ⟨v', hs, hlead⟩ => ⟨v', hs.listeners hl, hlead⟩
  civil := fun ⟨_, hs, _⟩ => hs.civil
  runs := keeps_runCode hv

end Session

/-! ### Turns -/

/-- What a cycle that goes on leaves of a desk where it does not stand in line any more. -/
inductive Scene.Resumes (s : Scene Desk) (v : Stage) (c : Cycle) (cs : List Cycle) :
    Scene Desk → Prop where
  | finished {t : Scene Desk} {q : Session} {w : Workspace} : v.Goes c (.ok .finished) q w →
      t.Shows ⟨q.completed c, w, cs⟩ → s.SameQueue t → s.Resumes v c cs t
  | yields {t : Scene Desk} {q : Session} {w : Workspace} {pause : Pause} {pending : List Op} :
      v.Goes c (.ok (.paused pause pending)) q w → t.Shows ⟨q, w, { c with pending } :: cs⟩ →
      s.Joins t { c with pending } → s.Resumes v c cs t
  | waits {t : Scene Desk} {q : Session} {w : Workspace} {pause : Pause} {pending : List Op} :
      v.Goes c (.ok (.paused pause pending)) q w → t.Shows ⟨q, w, { c with pending } :: cs⟩ →
      t.audience.ready = s.audience.ready →
      t.audience.waiting = s.audience.waiting ++ [{ c with pending }] → s.Resumes v c cs t
  | superseded {t : Scene Desk} {q : Session} {w : Workspace} {e : Error} : e.isFault = false →
      v.Goes c (.error e) q w → t.Shows ⟨q, w, cs⟩ → s.SameQueue t → s.Resumes v c cs t
  | failed {t : Scene Desk} {q : Session} {w w' : Workspace} {e : Error} : e.isFault = true →
      v.Goes c (.error e) q w →
      w.Cleared (q.settings.supersedes && c.generation = q.generation) w' →
      t.Shows ⟨q.faulted e, w', cs⟩ → s.SameQueue t → s.Resumes v c cs t

/-- A cycle that goes on is a move. -/
theorem Scene.Resumes.exists_move {s t : Scene Desk} {v : Stage} {c : Cycle} {cs : List Cycle}
    (h : s.Resumes v c cs t) (hperm : v.cycles.Perm (c :: cs)) : ∃ v', t.Shows v' ∧ v.Move v' := by
  cases h with
  | finished hg ht => exact ⟨_, ht, .finished hperm hg⟩
  | yields hg ht => exact ⟨_, ht, .paused hperm hg⟩
  | waits hg ht => exact ⟨_, ht, .paused hperm hg⟩
  | superseded he hg ht => exact ⟨_, ht, .superseded hperm he hg⟩
  | failed he hg hw ht => exact ⟨_, ht, .failed hperm he hg hw⟩

section

variable {v : Stage} {s : Scene Desk} {c : Cycle} {cs : List Cycle}

theorem Session.resumes_fail {s' : Scene Desk} {e : Error} {w : Workspace} {q : Session}
    (hv : v.workspace.Filed) (hc : c.session = 0) (he : e.isFault = true)
    (hg : v.Goes c (.error e) q w) (hs : s'.Shows ⟨q, w, cs⟩) (hq : s.SameQueue s') :
    Ends (fail c e) s' (fun _ t => s.Resumes v c cs t) fun _ t => s.Resumes v c cs t := by
  have hfault (host : Host) := (hs.update (·.faulted e)).elsewhere host
  unfold fail noteError
  rw [hc]
  refine Ends.bind (Ends.modify (Ends.bind (Ends.modify (Ends.bind
    ((hfault _).ends_session? ?_)))))
  dsimp only
  split
  · rename_i hnewest
    refine Ends.bind (Act.ends_attempt (((hfault _).ends_restoreAll (hg.filed hv) _).mono
      (fun _ t ht => ?_) fun _ _ he => he.elim))
    obtain ⟨w', hw', ht, hsame⟩ := ht
    exact Ends.pure (.failed he hg (hnewest.symm ▸ hw') ht
      ⟨hsame.1.trans hq.1, hsame.2.trans hq.2⟩)
  · -- an older cycle leaves the highlights to the newest one
    rename_i hnewest
    rw [Bool.not_eq_true] at hnewest
    refine Ends.pure (.failed he hg ?_ (hfault _) hq)
    rw [show (q.settings.supersedes && decide (c.generation = q.generation)) = false from hnewest]
    rfl

/-- **A cycle that goes on.** -/
theorem Scene.Shows.resumes_resume (hs : s.Shows { v with cycles := cs }) (hv : v.workspace.Filed)
    (hc : c.session = 0) :
    Ends (Session.resume c) s (fun _ t => s.Resumes v c cs t) fun _ t => s.Resumes v c cs t := by
  obtain ⟨number, generation, program, before, broken⟩ := c
  obtain rfl : number = 0 := hc
  unfold Session.resume
  refine Ends.bind (hs.ends_session? ?_)
  dsimp only
  refine Ends.bind (Act.ends_attempt (hs.ends_traced fun s' hw hl => ?_))
  refine (Ends.self _ _).mono (fun p t hp u hu hq => ?_) fun e t hp u hu hq => ?_
  · have hg : v.Goes ⟨0, generation, program, before, broken⟩ (.ok p) _ _ := .ok hw hl hp
    cases p with
    | finished =>
        exact Ends.modify (.finished hg
          (hu.update (·.completed ⟨0, generation, program, before, broken⟩)) hq)
    | paused pause pending =>
        have again {d : Desk} (hd : d.sessions = u.audience.sessions)
            (hl : d.listeners = u.audience.listeners)
            (hp : (d.ready ++ d.waiting).Perm (⟨0, generation, program, pending, broken⟩ ::
              (u.audience.ready ++ u.audience.waiting))) :=
          hu.queued (c := ⟨0, generation, program, pending, broken⟩) rfl hd hl hp
        have yields {u' : Scene Desk} (hu' : u' = { u with audience := { u.audience with
            ready := u.audience.ready ++ [⟨0, generation, program, pending, broken⟩] } }) :
            s.Resumes v ⟨0, generation, program, before, broken⟩ cs u' := by
          subst hu'
          exact .yields hg (again rfl rfl (Scene.Shows.perm_queue _ _ _))
            ⟨congrArg (· ++ _) hq.1, hq.2⟩
        rcases pause with _ | _ | _
        · exact Ends.modify (yields rfl)
        · exact Ends.modify (yields rfl)
        · refine Ends.modify (.waits hg (again rfl rfl ?_) hq.1 (congrArg (· ++ _) hq.2))
          rw [← List.append_assoc]
          exact List.perm_append_singleton _ _
  · have hg : v.Goes ⟨0, generation, program, before, broken⟩ (.error e) _ _ := .error hw hl hp
    have fault (he : e.isFault = true) := Session.resumes_fail hv rfl he hg hu hq
    cases e with
    | superseded g n => exact Ends.pure (.superseded rfl hg hu hq)
    | _ => exact fault rfl

/-- **The end of a wait**, if there is one in that place. -/
theorem Scene.Shows.wakes_wake (hs : s.Shows v) (place : Nat) (broken : Option Error) :
    Ends (Session.wake place broken) s
      (fun _ t => t = s ∨ ∃ c cs, c ∈ s.audience.waiting ∧ v.cycles.Perm (c :: cs) ∧
        t.Shows { v with cycles := { c with broken } :: cs } ∧
        t.audience.ready = s.audience.ready ++ [{ c with broken }] ∧
        t.audience.waiting ⊆ s.audience.waiting) fun _ _ => False := by
  refine Ends.modify ?_
  dsimp only
  by_cases hplace : place < s.audience.waiting.length
  · rw [List.getElem?_eq_getElem hplace]
    have hmem := List.getElem_mem hplace
    have hperm := List.getElem_cons_eraseIdx_perm hplace
    have hsub := List.eraseIdx_subset (l := s.audience.waiting) (k := place)
    generalize s.audience.waiting[place] = c at hperm hmem
    generalize s.audience.waiting.eraseIdx place = rest at hperm hsub
    have hcycles : v.cycles.Perm (c :: (s.audience.ready ++ rest)) :=
      hs.cycles.symm.trans ((hperm.symm.append_left _).trans List.perm_middle)
    have hown := List.forall_mem_cons.mp fun d hd => hs.own d (hcycles.mem_iff.mpr hd)
    let woken : Cycle := { c with broken }
    refine .inr ⟨c, s.audience.ready ++ rest, hmem, hcycles,
      ⟨hs.sessions, hs.workspace, ?_, ?_, hs.civil⟩, rfl, hsub⟩
    · exact Scene.Shows.perm_queue woken _ _
    · exact List.forall_mem_cons.mpr ⟨hown.1, hown.2⟩
  · rw [List.getElem?_eq_none (Nat.le_of_not_lt hplace),
      List.eraseIdx_of_length_le (Nat.le_of_not_lt hplace), Option.map_none, Option.toList_none,
      List.append_nil]
    exact .inl rfl

end

namespace Session

variable {v : Stage} (hv : v.Sound) {c : Cycle}

include hv

theorem ends_resume {v' : Stage} {s : Scene Desk} {cs : List Cycle} (hlead : v.Leads v')
    (hperm : v'.cycles.Perm (c :: cs)) (hc : c.session = 0)
    (hs : s.Shows { v' with cycles := cs }) :
    Ends (resume c) s (fun _ t => t.From v) fun _ t => t.From v := by
  have resumed {t : Scene Desk} (ht : s.Resumes v' c cs t) : t.From v := by
    obtain ⟨v'', ht, hm⟩ := ht.exists_move hperm
    exact ⟨v'', ht, hlead.move hm⟩
  exact (hs.resumes_resume (hlead.sound hv).filed hc).mono (fun _ _ => resumed) fun _ _ => resumed

theorem keeps_turn : Keeps (Scene.From v) turn := by
  rintro s ⟨v', hs, hlead⟩
  cases hready : s.audience.ready with
  | nil =>
      unfold turn
      refine Ends.bind (Ends.get ?_)
      rw [hready]
      exact Ends.pure ⟨v', hs, hlead⟩
  | cons c ready =>
      exact hs.ends_turn hready fun hperm hown hs => ends_resume hv hlead hperm hown hs

omit hv in
theorem keeps_wake {broken : Option Error} (hb : ∀ e ∈ broken, e.isFault = true) (place : Nat) :
    Keeps (Scene.From v) (wake place broken) := fun s ⟨v', hs, hlead⟩ =>
  (hs.wakes_wake place broken).mono (fun _ t ht => by
    obtain rfl | ⟨c, cs, -, hperm, ht, -⟩ := ht
    · exact ⟨v', hs, hlead⟩
    · exact ⟨_, ht, hlead.move (.woken hperm hb)⟩) fun _ _ he => he.elim

end Session

/-! ### Events -/

namespace Session

/-- Something that can happen at a desk: the session is started or stopped or starts a cycle, the
workspace is called, the event loop takes a turn, a wait ends, and from now on waits go in another
way. -/
inductive Event where
  | start
  | stop
  | run
  | call (c : Call)
  | turn
  | wake (place : Nat) (broken : Option Error)
  | pace (pacing : Pacing)

namespace Event

/-- What is done then. -/
def act : Event → Act Desk Unit
  | .start => do let _ ← Session.start 0
  | .stop => Session.stop 0
  | .run => do let _ ← runCode 0
  | .call c => c.act Desk.audience
  | .turn => Session.turn
  | .wake place broken => Session.wake place broken
  | .pace pacing => Act.arrange (·.updateSession 0 ({ · with pacing }))

/-- Whether waits end and go on with faults only. -/
def Fair : Event → Prop
  | .wake _ broken => ∀ e ∈ broken, e.isFault = true
  | .pace pacing => pacing.Fair
  | _ => True

/-- **Whatever happens at a desk comes down to moves.** -/
theorem keeps_from {v : Stage} (hv : v.Sound) {e : Event} (he : e.Fair) :
    Keeps (Scene.From v) e.act := by
  cases e with
  | start => exact ((enduring_from hv).keeps_start 0).bind fun _ => Keeps.pure ()
  | stop => exact (enduring_from hv).keeps_stop 0
  | run => exact (keeps_runCode hv 0).bind fun _ => Keeps.pure ()
  | call c => exact (enduring_from hv).keeps_call c
  | turn => exact keeps_turn hv
  | wake place broken => exact keeps_wake he place
  | pace pacing =>
      exact fun s ⟨v', hs, hlead⟩ =>
        Ends.modify ⟨_, hs.update ({ · with pacing }), hlead.move (.paced he)⟩

end Event

end Session

end Blockwork
