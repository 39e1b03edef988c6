import Blockwork.Proofs.Overtaking
import Blockwork.Proofs.Singles
import Blockwork.Session.Studio

/-!
# Newer cycles supersede older ones

A desk is set up with a session whose newer cycles supersede older ones (`Scene.Opens`), and then
anything may happen there in any order (`Scene.Later`).  In every scene that comes about, a block is
highlighted only if the newest cycle waits in its statement (`Scene.Comes.lit_only_in_wait`); and
once a cycle is not the newest one any more, it puts out nothing, changes no colour and does not
wait again, so that the lines are those of the newest cycle
(`Scene.Comes.silent_once_superseded`).
-/

namespace Blockwork

open Relation (ReflTransGen)

namespace Scene

/-- Whether a desk is set up with a session for an empty workspace, whose newer cycles supersede
older ones, whose rules are plain and whose waits fail by faults only. -/
structure Opens (s : Scene Desk) : Prop where
  workspace : ∃ v created, s.workspace = Workspace.new v created
  sessions : ∃ q : Session, s.audience.sessions = [q] ∧ q.settings.supersedes = true ∧
    q.compiler.Plain ∧ q.pacing.Fair ∧ q.results = []
  ready : s.audience.ready = []
  waiting : s.audience.waiting = []
  civil : ∀ g, .guest g ∈ s.audience.listeners → g.Civil

/-- Whether a scene comes of another one by what happens at the desk, one thing after the other. -/
def Later : Scene Desk → Scene Desk → Prop :=
  ReflTransGen fun s t => ∃ e : Session.Event, e.Fair ∧ t = stateAfter e.act s

/-- Whether a scene can come about. -/
def Comes (s : Scene Desk) : Prop := ∃ o : Scene Desk, o.Opens ∧ o.Later s

/-- The cycles that are under way. -/
def cycles (s : Scene Desk) : List Cycle := s.audience.ready ++ s.audience.waiting

/-- The number of the newest cycle. -/
def newest (s : Scene Desk) : Nat := (s.audience.sessions[0]?.map (·.generation)).getD 0

/-- The results of the cycles that have come to their ends. -/
def results (s : Scene Desk) : List Completion := (s.audience.sessions[0]?.map (·.results)).getD []

/-- The lines that the program has put out. -/
def lines (s : Scene Desk) : Array Line := s.audience.linesOf 0

namespace Shows

variable {s : Scene Desk} {v : Stage} (h : s.Shows v)

include h

theorem newest_eq : s.newest = v.session.generation := by
  rw [newest, h.session?_eq]
  rfl

theorem results_eq : s.results = v.session.results := by
  rw [results, h.session?_eq]
  rfl

theorem lines_eq : s.lines = v.session.output.lines := by
  rw [lines, Desk.linesOf, h.session?_eq]
  rfl

theorem mem_cycles {c : Cycle} : c ∈ s.cycles ↔ c ∈ v.cycles := h.cycles.mem_iff

end Shows

variable {s t : Scene Desk}

theorem Later.event {e : Session.Event} (h : s.Later t) (he : e.Fair) :
    s.Later (stateAfter e.act t) := h.tail ⟨e, he, rfl⟩

theorem Later.from {v : Stage} (hv : v.Sound) (h : s.Later t) (hs : s.From v) : t.From v := by
  induction h with
  | refl => exact hs
  | tail _ he ih =>
      obtain ⟨e, hfair, rfl⟩ := he
      exact (Session.Event.keeps_from hv hfair).stateAfter ih

/-- What a desk shows that is set up. -/
theorem Opens.exists_orderly (h : s.Opens) : ∃ v, s.Shows v ∧ v.Orderly := by
  obtain ⟨vocabulary, created, hw⟩ := h.workspace
  obtain ⟨q, hq, hs, hc, hp, hr⟩ := h.sessions
  refine ⟨⟨q, s.workspace, []⟩, ⟨hq, rfl, ?_, (fun _ hc => nomatch hc), h.civil⟩, ?_⟩
  · rw [h.ready, h.waiting]
    exact .refl []
  · exact {
      filed := hw ▸ Workspace.filed_new _ _
      supersedes := hs
      plain := hc
      fair := hp
      underway := fun _ hc => nomatch hc
      upTo := fun _ hc => nomatch hc
      distinct := List.nodup_nil
      lit := hw ▸ (Workspace.unlit_new _ _).within
      spoken := fun _ hc => nomatch hc
      settled := fun r hr' => by
        rw [show q.results = [] from hr] at hr'
        cases hr' }

/-- **Whatever happens, a desk shows an orderly stage.** -/
theorem Comes.exists_orderly (h : s.Comes) : ∃ v, s.Shows v ∧ v.Orderly := by
  obtain ⟨o, ho, hlater⟩ := h
  obtain ⟨v, hv, horderly⟩ := ho.exists_orderly
  obtain ⟨v', hv', hleads⟩ := hlater.from horderly.toSound ⟨v, hv, .refl⟩
  exact ⟨v', hv', hleads.orderly horderly⟩

theorem Comes.later (h : s.Comes) (ht : s.Later t) : t.Comes := by
  obtain ⟨o, ho, hlater⟩ := h
  exact ⟨o, ho, hlater.trans ht⟩

/-! ### Parts that are not seen -/

/-- Whether two scenes have the same blocks, and the same lines, changes of colour and waits are
seen. -/
def SameSight (s t : Scene Desk) : Prop :=
  t.workspace = s.workspace ∧ t.audience.trace 0 = s.audience.trace 0

/-- What does nothing in a run does nothing at the desk. -/
theorem Shows.ends_traced_still {v : Stage} (h : s.Shows v) {α : Type} {r : Run α}
    {good : α → Prop} {bad : Error → Prop}
    (hr : ∀ s' : Scene Trace, s'.workspace = s.workspace →
      Ends r s' (fun a t => good a ∧ t = s') fun e t => bad e ∧ t = s') :
    Ends (Act.traced 0 r) s (fun a t => good a ∧ t = s) fun e t => bad e ∧ t = s := by
  -- the only session is put back with the trace that was read off it
  have back : ({ s with audience := s.audience.withTrace 0 (s.audience.trace 0) } : Scene Desk) =
      s := by
    obtain ⟨_, _, ⟨_, _, sessions, _, _, _, _, _, _⟩⟩ := s
    obtain rfl : sessions = [v.session] := h.sessions
    rfl
  have hr := hr { s with audience := s.audience.trace 0 } rfl
  unfold Ends Act.traced at *
  cases hx : r { s with audience := s.audience.trace 0 } with
  | ok a t =>
      rw [hx] at hr
      obtain ⟨ha, rfl⟩ := hr
      exact ⟨ha, back⟩
  | error e t =>
      rw [hx] at hr
      obtain ⟨he, rfl⟩ := hr
      exact ⟨he, back⟩

theorem SameSight.trans {r : Scene Desk} (h : r.SameSight s) (k : s.SameSight t) : r.SameSight t :=
  ⟨k.1.trans h.1, k.2.trans h.2⟩

/-- A session with the same lines does not look any different. -/
theorem Shows.sameSight_update {v : Stage} (h : s.Shows v) {f : Session → Session}
    (hf : (f v.session).output = v.session.output) (host : Host) :
    s.SameSight { s with host, audience := s.audience.updateSession 0 f } := by
  have hlines : (s.audience.updateSession 0 f).linesOf 0 = s.audience.linesOf 0 := by
    have hupdate : (s.audience.updateSession 0 f).sessions[0]? = some (f v.session) :=
      (h.update f).session?_eq
    rw [Desk.linesOf, Desk.linesOf, hupdate, h.session?_eq, Option.map_some, Option.map_some, hf]
  exact ⟨rfl, by rw [Desk.trace, hlines]; rfl⟩

/-- The turn of a cycle that is not the newest one. -/
theorem Shows.ends_turn_stale {v : Stage} (h : s.Shows v) (hv : v.Orderly) {c : Cycle}
    {ready : List Cycle} (hc : s.audience.ready = c :: ready) (hg : c.generation ≠ s.newest) :
    Ends Session.turn s (fun _ t => s.SameSight t) fun _ t => s.SameSight t := by
  have hgen : c.generation ≠ v.session.generation := h.newest_eq ▸ hg
  refine h.ends_turn hc fun _ hown hu => ?_
  have hsight : s.SameSight { s with audience := { s.audience with ready } } := ⟨rfl, rfl⟩
  generalize ({ s with audience := { s.audience with ready } } : Scene Desk) = u at hu hsight ⊢
  obtain ⟨number, generation, program, pending, broken⟩ := c
  obtain rfl : number = 0 := hown
  unfold Session.resume
  refine Ends.bind (hu.ends_session? ?_)
  dsimp only
  have still := hu.ends_traced_still fun s' _ =>
    (Session.ends_proceed_stale hv.supersedes hgen (s := s')).mono (fun _ _ ht => ht)
      fun _ _ ht => ⟨True.intro, ht⟩
  refine Ends.bind (Act.ends_attempt (still.mono (fun p t ht => ?_) fun e t ht => ?_))
  · obtain ⟨⟨rfl, -⟩, rfl⟩ := ht
    exact Ends.modify (hsight.trans (hu.sameSight_update
      (f := (·.completed ⟨0, generation, program, pending, broken⟩)) rfl _))
  · obtain ⟨-, rfl⟩ := ht
    have failed : Ends (Session.fail ⟨0, generation, program, pending, broken⟩ e) t
        (fun _ t => s.SameSight t) fun _ t => s.SameSight t := by
      unfold Session.fail Session.noteError
      refine Ends.bind (Ends.modify (Ends.bind (Ends.modify (Ends.bind
        (((hu.update (·.faulted e)).elsewhere _).ends_session? ?_)))))
      dsimp only
      split
      · rename_i hnew
        exact absurd (of_decide_eq_true (Bool.and_eq_true_iff.mp hnew).2) hgen
      · exact Ends.pure (hsight.trans (hu.sameSight_update (f := (·.faulted e)) rfl _))
    cases e with
    | superseded => exact Ends.pure hsight
    | _ => exact failed

/-- A cycle that is started while no block is highlighted. -/
theorem Shows.ends_runCode {v : Stage} (h : s.Shows v) (hn : v.workspace.Unlit)
    (hloop : s.audience.loop = true) {p : Program} {text : String}
    (hp : Session.prepare v.session.compiler v.workspace = .ok (p, text)) :
    Ends (Session.runCode 0) s
      (fun _ t => t.Shows ⟨v.session.renewed.showing text, v.workspace,
          ⟨0, v.session.generation + 1, p, p.ops, none⟩ :: v.cycles⟩ ∧
        t.audience.loop = true ∧ t.audience.ready =
          s.audience.ready ++ [⟨0, v.session.generation + 1, p, p.ops, none⟩])
      fun _ _ => False := by
  rw [← h.workspace] at hp
  unfold Session.runCode
  refine Ends.bind (Ends.get ?_)
  rw [hloop]
  refine Ends.bind (h.ends_session? ?_)
  have hnew := h.update fun q => { q with generation := v.session.generation + 1 }
  refine Ends.bind (Ends.modify (Ends.skip (P := (· = _)) (fun _ => ?_) (fun _ => rfl)
    fun t ht => ?_))
  · have still := hnew.ends_traced_still fun s' hs' =>
      (Highlighter.ends_restoreAll_unlit (h := v.session.highlighter) (s := s')
        (by rw [hs']; exact h.workspace ▸ hn)).mono (fun _ _ ht => ⟨True.intro, ht⟩)
        fun _ _ he => ⟨he, he.elim⟩
    exact still.mono (fun _ _ ht => ht.2) fun _ _ he => he.1
  · obtain rfl := ht
    refine Ends.bind (Ends.get ?_)
    dsimp only
    rw [hp]
    exact Ends.bind (hnew.ends_enqueue fun t ht hl hr => Ends.pure ⟨ht, hl.trans hloop, hr.1⟩)

end Scene

/-! ### A desk with one block

A rule makes a line and a wait of the block. -/

/-- Puts out a line. -/
def Subroutine.greet : Subroutine where
  name := "greet"
  text := ""
  run _ := do
    modify (·.push ⟨.text "hello", .text "#5b67a5"⟩)
    return .null

/-- Makes a line and a wait of a block that waits. -/
def Compiler.greeting : Compiler where
  rules := [(.text "wait", fun _ => do
    modify fun d => { d with definitions := [.greet] }
    return .ops [.call (.text "greet") [], .sleep (.literal (.int 1))])]

/-- A session whose waits last. -/
def Session.greeting : Session where
  settings := {}
  archive := { slots := .broken }
  compiler := .greeting
  highlighter := { shade := ⟨.rgb, .int 40⟩ }
  pacing _ := .ok .lasting

/-- The program of one block. -/
def Program.greeting : Program where
  chains := [[{ block := .text "hi", type := .text "wait"
                ops := [.call (.text "greet") [], .sleep (.literal (.int 1))] }]]
  definitions := [.greet]
  imports := []

theorem Compiler.plain_greeting : Compiler.greeting.Plain := by
  intro e he site _
  obtain rfl := List.mem_singleton.mp he
  refine fun d hd => Ends.bind (Ends.modify (Ends.pure ⟨fun op hop => ?_, fun s hs => ?_⟩))
  · rcases List.mem_cons.mp hop with rfl | hop
    · rfl
    · obtain rfl := List.mem_singleton.mp hop
      rfl
  · obtain rfl := List.mem_singleton.mp hs
    exact fun _ _ => Ends.bind (Ends.modify (Ends.pure trivial))

namespace Scene

variable {s : Scene Desk}

/-- A desk with that session. -/
def hall : Scene Desk where
  workspace := Workspace.new .stock 0
  audience := { sessions := [.greeting] }

theorem opens_hall : hall.Opens where
  workspace := ⟨_, _, rfl⟩
  sessions := ⟨_, rfl, rfl, Compiler.plain_greeting, (fun _ _ h => nomatch h), rfl⟩
  ready := rfl
  waiting := rfl
  civil _ h := nomatch h

/-- The block. -/
def greeter : Block :=
  Edit.newBlock "hi" (.text "wait") Vocabulary.wait [(.text "SECONDS", .int 1)]
    [.float (.zero false), .float (.zero false)]

/-- The creation of the block. -/
def creation : Session.Event :=
  .call (.create (.text "wait") (.text "hi") Snapshot.origin [])

/-- Where nobody listens, nothing comes of a change. -/
theorem keeps_hear_unheard {w : Workspace} {d : Desk} (hd : d.listeners = []) (c : Change) :
    Keeps (fun s : Scene Desk => s.workspace = w ∧ s.audience = d) (Desk.audience.hear c) := by
  rintro s ⟨hw, ha⟩
  refine Ends.bind (Ends.get ?_)
  cases s.audience.answerLimit with
  | zero => exact Ends.throw ⟨hw, ha⟩
  | succ n =>
      refine Ends.bind (Ends.get ?_)
      rw [ha, hd]
      exact Ends.pure ⟨hw, ha⟩

theorem creates_greeter : Edit.Creates (Workspace.new .stock 0) (.text "wait") (.text "hi")
    Snapshot.origin [] Vocabulary.wait [(.text "SECONDS", .int 1)]
    [.float (.zero false), .float (.zero false)] :=
  ⟨rfl, rfl, rfl, .inr (Table.find?_eq ..)⟩

/-- What the creation leaves where nobody listens. -/
theorem after_creation {o : Scene Desk} (ho : o.workspace = Workspace.new .stock 0)
    (hl : o.audience.listeners = []) :
    (stateAfter creation.act o).workspace.Lone "hi" greeter ∧
      (stateAfter creation.act o).audience = o.audience := by
  let w := (Workspace.new .stock 0).insert "hi" greeter
  let P (t : Scene Desk) := t.workspace = w ∧ t.audience = o.audience
  have hcreated := Edit.stateAfter_create creates_greeter
  have told (ns : List Notice) : Keeps P (Act.tellAll Desk.audience ns) :=
    Act.keeps_tellAll (Act.keeps_tell (keeps_hear_unheard hl)) ns
  have hends : Ends creation.act o (fun _ t => P t) fun _ t => P t := by
    refine Ends.bind (Ends.bind (Act.ends_edit (ho ▸ (Ends.of_stateAfter (P := (· = _)) hcreated).mono
      (fun r u hu => ?_) fun _ u hu => ⟨hu, rfl⟩)))
    refine Ends.bind ((told r.2 { o with workspace := u } ⟨hu, rfl⟩).mono
      (fun _ _ ht => ?_) fun _ _ ht => ht)
    exact Ends.pure (Ends.pure ht)
  obtain ⟨hw, ha⟩ := hends.stateAfter (P := P)
  exact ⟨hw ▸ Workspace.lone_insert .stock 0 "hi" _ _ _ _, ha⟩

theorem exists_prepare {w : Workspace} (h : w.Lone "hi" greeter) :
    ∃ text, Session.prepare .greeting w = .ok (Program.greeting.instrument, text) := by
  have hp := (h.sole rfl).program rfl (t := .greeting) rfl rfl fun plug => rfl
  unfold Session.prepare
  rw [hp]
  exact ⟨_, rfl⟩

/-- What is at the desk once the block is created and so many cycles are started. -/
structure Greets (s : Scene Desk) (n : Nat) (cs : List Cycle) : Prop where
  comes : s.Comes
  shows : ∃ w lastText code output,
    s.Shows ⟨{ Session.greeting with generation := n, lastText, code, output }, w, cs⟩ ∧
      w.Lone "hi" greeter ∧ output.lines = #[]
  loop : s.audience.loop = true
  ready : s.audience.ready = cs.reverse

theorem unlit_lone {w : Workspace} (h : w.Lone "hi" greeter) : w.Unlit := by
  intro k b hb hlit
  rw [show w.find? k = _ from Table.find?_eq _ _, show w.table.entries = _ from h.entries] at hb
  rw [Entries.get?_cons] at hb
  split at hb
  · obtain rfl := Option.some.inj hb
    cases hlit
  · cases hb

theorem shows_creation : (stateAfter creation.act hall).Shows
    ⟨.greeting, (stateAfter creation.act hall).workspace, []⟩ := by
  obtain ⟨-, ha⟩ := after_creation (o := hall) rfl rfl
  refine ⟨?_, rfl, ?_, (fun _ h => nomatch h), ?_⟩
  · rw [ha]; rfl
  · rw [ha]; exact .refl []
  · rw [ha]; exact fun _ h => nomatch h

theorem exists_greets : ∃ s, Greets s 0 [] := by
  obtain ⟨hlone, ha⟩ := after_creation (o := hall) rfl rfl
  exact ⟨_, {
    comes := ⟨hall, opens_hall, .single ⟨creation, trivial, rfl⟩⟩
    shows := ⟨_, "", {}, {}, shows_creation, hlone, rfl⟩
    loop := by rw [ha]; rfl
    ready := by rw [ha]; rfl }⟩

/-- The cycle with a number. -/
def greetingCycle (n : Nat) : Cycle :=
  ⟨0, n, Program.greeting.instrument, Program.greeting.instrument.ops, none⟩

theorem Greets.run {n : Nat} {cs : List Cycle} (h : Greets s n cs) :
    Greets (stateAfter Session.Event.run.act s) (n + 1) (greetingCycle (n + 1) :: cs) := by
  obtain ⟨w, _, code, output, hs, hlone, -⟩ := h.shows
  obtain ⟨text, hp⟩ := exists_prepare hlone
  have hrun := hs.ends_runCode (unlit_lone hlone) h.loop hp
  obtain ⟨hs, hloop, hready⟩ := (Ends.bind (f := fun _ => pure ()) (hrun.mono
    (fun _ _ ht => Ends.pure ht) fun _ _ he => he.elim)).stateAfter (x := Session.Event.run.act)
  exact {
    comes := h.comes.later (.single ⟨.run, trivial, rfl⟩)
    shows := ⟨w, _, _, _, hs, hlone, rfl⟩
    loop := hloop
    ready := by rw [hready, h.ready, List.reverse_cons]; rfl }

theorem Greets.newest_eq {n : Nat} {cs : List Cycle} (h : Greets s n cs) : s.newest = n := by
  obtain ⟨_, _, _, _, hs, -⟩ := h.shows
  exact hs.newest_eq

/-- The block is highlighted. -/
theorem ends_perform_greeter {t : Terms} {h : Highlighter} (ht : t.highlighter = some h)
    (hshade : h.shade = ⟨.rgb, .int 40⟩) {s : Scene Trace}
    (hfind : s.workspace.find? (.text "hi") = some greeter) :
    Ends (Op.perform t (.highlight (.text "hi"))) s
      (fun pause u => pause = .over ∧
        (∃ b, u.workspace.find? (.text "hi") = some b ∧ b.isHighlighted = true) ∧
          u.audience.lines = s.audience.lines) fun _ _ => False := by
  obtain ⟨colour, hcolour⟩ := Shade.exists_lightenText (s := h.shade)
    (hshade ▸ fun _ => ⟨40, rfl⟩) Vocabulary.wait.colour
  unfold Op.perform
  rw [ht]
  refine Ends.bind ((Highlighter.ends_activate_found rfl hfind rfl (fun h => nomatch h)
    hcolour).mono (fun _ u hu => ?_) fun _ _ he => he)
  exact Ends.pure ⟨rfl, hu⟩

/-- A wait goes as waits do, and changes no block and no line. -/
theorem ends_perform_sleep {t : Terms} {r : Except Error Pause} (ht : ∀ wait, t.pacing wait = r)
    {s : Scene Trace} {good : Pause → Scene Trace → Prop} {bad : Error → Scene Trace → Prop}
    (h : ∀ u : Scene Trace, u.workspace = s.workspace → u.audience.lines = s.audience.lines →
      Ends (Act.ofExcept r) u good bad) :
    Ends (Op.perform t (.sleep (.literal (.int 1)))) s good bad := by
  have hseconds : (Value.int 1).toFloat.isOk = true := by decide +kernel
  refine Ends.bind (Run.ends_emit_ok rfl (Ends.bind (Act.ends_ofExcept (fun seconds _ => ?_)
    fun e he => ?_)))
  · refine Ends.bind (Ends.get (Ends.bind (Ends.modify ?_)))
    rw [ht]
    exact h _ rfl rfl
  · rw [show (Value.int 1).toFloat = .error e from he] at hseconds
    cases hseconds

/-- A wait lasts where waits do. -/
theorem ends_perform_doze {t : Terms} (ht : ∀ wait, t.pacing wait = .ok .lasting)
    {s : Scene Trace} : Ends (Op.perform t (.sleep (.literal (.int 1)))) s
      (fun pause u => pause = .lasting ∧ u.workspace = s.workspace ∧
        u.audience.lines = s.audience.lines) fun _ _ => False :=
  ends_perform_sleep ht fun _ hw hl => Act.ends_ofExcept_ok rfl ⟨rfl, hw, hl⟩

/-- The cycle highlights the block, puts out its line and waits. -/
theorem ends_proceed_greeting (lastText : String) (code : TextDisplay) (output : OutputDisplay)
    {s : Scene Trace} {w : Workspace} (hw : s.workspace = w) (hlone : w.Lone "hi" greeter)
    (hl : s.audience.lines = #[]) :
    Ends (Session.proceed { Session.greeting with generation := 1, lastText, code, output }
      (greetingCycle 1)) s
      (fun p t => (∃ pending, p = .paused .lasting pending) ∧
        (∃ b, t.workspace.find? (.text "hi") = some b ∧ b.isHighlighted = true) ∧
          t.audience.lines.size = 1) fun _ _ => False := by
  have hsteady : Clock.Steady [.int 1] (.int 1) := fun g hg => by
    obtain rfl := List.mem_singleton.mp hg
    decide
  let q : Session := { Session.greeting with generation := 1, lastText, code, output }
  change Ends (advance (Session.terms q (greetingCycle 1)) [.int 1] [.highlight (.text "hi"),
    .call (.text "greet") [], .sleep (.literal (.int 1)), .restore (.text "hi")]) s _ _
  refine ends_advance_steady hsteady ((ends_perform_greeter rfl rfl (hw ▸ hlone.block?_self)).mono
    (fun pause t ht => ?_) fun _ _ he => he)
  obtain ⟨rfl, hlit, hlines⟩ := ht
  rw [if_pos rfl]
  intro clock hclock
  refine ends_advance_steady hclock (Ends.bind (Run.ends_emit_ok rfl (Ends.pure ?_)))
  rw [if_pos rfl]
  intro clock hclock
  refine ends_advance_steady hclock ((ends_perform_doze fun _ => rfl).mono (fun pause u hu => ?_)
    fun _ _ he => he)
  obtain ⟨rfl, hworkspace, hsame⟩ := hu
  rw [if_neg (by decide)]
  refine ⟨⟨_, rfl⟩, hworkspace ▸ hlit, ?_⟩
  rw [hsame]
  change (t.audience.lines.push _).size = 1
  rw [hlines, hl]
  rfl

/-- So after its turn the block is highlighted, the line is there, and no other cycle can go on. -/
theorem Greets.turn (h : Greets s 1 [greetingCycle 1]) :
    (∃ b, (stateAfter Session.turn s).workspace.find? (.text "hi") = some b ∧
      b.isHighlighted = true) ∧ (stateAfter Session.turn s).lines.size = 1 ∧
        (stateAfter Session.turn s).newest = 1 ∧ (stateAfter Session.turn s).audience.ready = [] := by
  obtain ⟨w, lastText, code, output, hs, hlone, hlines⟩ := h.shows
  let P (t : Scene Desk) := (∃ b, t.workspace.find? (.text "hi") = some b ∧
    b.isHighlighted = true) ∧ t.lines.size = 1 ∧ t.newest = 1 ∧ t.audience.ready = []
  have hturn : Ends Session.turn s (fun _ t => P t) fun _ t => P t := by
    refine hs.ends_turn h.ready fun _ _ hs => ?_
    unfold Session.resume
    refine Ends.bind (hs.ends_session? ?_)
    refine Ends.bind (Act.ends_attempt (hs.ends_traced fun s' hw hl => ?_))
    refine (ends_proceed_greeting lastText code output hw hlone (hl.trans hlines)).mono
      (fun p t ht u hu hq => ?_) fun _ _ he => he.elim
    obtain ⟨⟨pending, rfl⟩, hlit, hsize⟩ := ht
    refine Ends.modify ⟨?_, ?_, ?_, hq.1⟩
    · rw [hu.workspace]
      exact hlit
    · exact (congrArg Array.size hu.lines_eq).trans hsize
    · exact hu.newest_eq
  exact hturn.stateAfter (P := P)

/-! ### Highlights -/

/-- **A block is highlighted only while the newest cycle waits in its statement.**  So no two blocks
are highlighted at a time, and none is while no cycle is under way. -/
theorem Comes.lit_only_in_wait (h : s.Comes) :
    (∀ k b, s.workspace.find? k = some b → b.isHighlighted = true →
      ∃ c ∈ s.cycles, c.generation = s.newest ∧ ∃ f, c.AwaitsIn f ∧ f.block.Names k) ∧
    (∀ j k b b', s.workspace.find? j = some b → b.isHighlighted = true →
      s.workspace.find? k = some b' → b'.isHighlighted = true → (j == k) = true) ∧
    (s.cycles = [] → ∀ k b, s.workspace.find? k = some b → b.isHighlighted = false) := by
  obtain ⟨v, hs, hv⟩ := h.exists_orderly
  have lit {k : Key} {b : Block} (hb : s.workspace.find? k = some b)
      (hk : b.isHighlighted = true) : ∃ c ∈ s.cycles, c.generation = s.newest ∧
        ∃ id ∈ Op.mark c.pending, id.Names k := by
    rw [hs.workspace] at hb
    obtain ⟨c, hc, hg, hid⟩ := hv.lit k b hb hk
    exact ⟨c, hs.mem_cycles.mpr hc, hg.trans hs.newest_eq.symm, hid⟩
  refine ⟨fun k b hb hk => ?_, fun j k b b' hb hj hb' hk => ?_, fun hnone k b hb => ?_⟩
  · obtain ⟨c, hc, hg, id, hid, hn⟩ := lit hb hk
    obtain ⟨f, hf, rfl⟩ := (hv.underway c (hs.mem_cycles.mp hc)).exists_awaiting hid
    exact ⟨c, hc, hg, f, hf, hn⟩
  · obtain ⟨c, hc, hg, id, hid, hn⟩ := lit hb hj
    obtain ⟨c', hc', hg', id', hid', hn'⟩ := lit hb' hk
    -- there is but one newest cycle
    obtain rfl : c = c' := List.inj_on_of_nodup_map hv.distinct (hs.mem_cycles.mp hc)
      (hs.mem_cycles.mp hc') (hg.trans hg'.symm)
    obtain rfl := Option.some.inj (hid.symm.trans hid')
    exact hn.unique hn'
  · by_contra hk
    obtain ⟨c, hc, -⟩ := lit hb (by simpa using hk)
    rw [hnone] at hc
    cases hc

/-- The block is highlighted in whose statement the cycle waits. -/
theorem lit_only_in_wait_greeting : ∃ s : Scene Desk, s.Comes ∧
    (∃ b, s.workspace.find? (.text "hi") = some b ∧ b.isHighlighted = true) ∧
    ∃ c ∈ s.cycles, c.generation = s.newest ∧ ∃ f, c.AwaitsIn f ∧ f.block.Names (.text "hi") := by
  obtain ⟨s, hs⟩ := exists_greets
  have hcomes : (stateAfter Session.turn (stateAfter Session.Event.run.act s)).Comes :=
    hs.run.comes.later (.single ⟨.turn, trivial, rfl⟩)
  obtain ⟨b, hb, hlit⟩ := hs.run.turn.1
  exact ⟨_, hcomes, ⟨b, hb, hlit⟩, (Comes.lit_only_in_wait hcomes).1 _ b hb hlit⟩

/-! ### Highlights that are left

A cycle that fails restores its highlight; one that ends as if there were a newer cycle leaves that to
the newer one, also where there is none.  Nor does anybody restore it where the event loop ends.
-/

/-- Whether a block is highlighted though no cycle is under way. -/
def LeftLit (s : Scene Desk) : Prop :=
  s.cycles = [] ∧ ∃ k b, s.workspace.find? k = some b ∧ b.isHighlighted = true

/-- Whether steps fail as if there were a newer cycle, and change no block. -/
def Quits (t : Terms) (ops : List Op) : Prop :=
  ∀ (clock : Clock) (s : Scene Trace), clock.Steady t.generation →
    Ends (advance t clock ops) s (fun _ _ => False) fun e u =>
      (∃ g n, e = .superseded g n) ∧ u.workspace = s.workspace

/-- Such steps leave the block highlighted for which they are run. -/
theorem Shows.ends_turn_quits {v : Stage} (h : s.Shows v) {p : Program} {ops : List Op}
    (hc : s.audience.ready = [⟨0, 1, p, .highlight (.text "hi") :: ops, none⟩])
    (hcycles : v.cycles.length = 1) (hnew : v.session.generation = 1)
    (hshade : v.session.highlighter.shade = ⟨.rgb, .int 40⟩)
    (hfind : v.workspace.find? (.text "hi") = some greeter)
    (hquits : Quits (Session.terms v.session ⟨0, 1, p, .highlight (.text "hi") :: ops, none⟩) ops) :
    Ends Session.turn s (fun _ t => t.LeftLit) fun _ _ => False := by
  have hsteady : (Session.clock v.session).Steady (.int 1) := by
    unfold Session.clock
    split
    · rintro g hg
      obtain rfl := List.mem_singleton.mp hg
      rw [hnew]
      decide
    · exact Clock.steady_nil _
  refine h.ends_turn hc fun hperm _ hs => ?_
  unfold Session.resume
  refine Ends.bind (hs.ends_session? ?_)
  refine Ends.bind (Act.ends_attempt (hs.ends_traced fun s' hw _ => ?_))
  refine ends_advance_steady hsteady ((ends_perform_greeter rfl hshade
    (hw ▸ hfind)).mono (fun pause t ht => ?_) fun _ _ he => he.elim)
  obtain ⟨rfl, ⟨b, hb, hlit⟩, -⟩ := ht
  rw [if_pos rfl]
  refine fun clock hclock => (hquits clock t hclock).mono (fun _ _ he => he.elim) fun e u he w hw _ => ?_
  obtain ⟨⟨g, n, rfl⟩, hu⟩ := he
  -- the cycle was the only one
  have hnone : w.cycles = [] := by
    have hlength := hperm.length_eq.symm.trans hcycles
    refine List.eq_nil_of_length_eq_zero ?_
    rw [Scene.cycles, hw.cycles.length_eq]
    simpa using hlength
  exact Ends.pure ⟨hnone, _, b, by rw [hw.workspace, hu]; exact hb, hlit⟩

end Scene

/-- Fails as if there were a newer cycle. -/
def Subroutine.quit : Subroutine where
  name := "quit"
  text := ""
  run _ := throw (.superseded (.int 1) (.int 2))

/-- Makes a call of that of a block that waits. -/
def Compiler.quitting : Compiler where
  rules := [(.text "wait", fun _ => do
    modify fun d => { d with definitions := [.quit] }
    return .ops [.call (.text "quit") []])]

/-- The program of one block then. -/
def Program.quitting : Program where
  chains := [[{ block := .text "hi", type := .text "wait", ops := [.call (.text "quit") []] }]]
  definitions := [.quit]
  imports := []

/-- A session for those programs. -/
def Session.quitting : Session := { Session.greeting with compiler := .quitting }

namespace Scene

variable {s : Scene Desk}

/-- A desk with that session. -/
def vestibule : Scene Desk where
  workspace := Workspace.new .stock 0
  audience := { sessions := [.quitting] }

theorem quits_quitting (q : Session) (pending : List Op) :
    Quits (Session.terms q ⟨0, 1, Program.quitting.instrument, pending, none⟩)
      [.call (.text "quit") [], .restore (.text "hi")] := by
  intro clock u hclock
  have heval : Expr.eval [.quit] (.call (.text "quit") []) u.audience.lines =
      .error (.superseded (.int 1) (.int 2)) u.audience.lines := rfl
  refine ends_advance_steady hclock (Ends.bind (Run.ends_emit ((Ends.of_error heval).mpr ?_)))
  exact ⟨⟨_, _, rfl⟩, rfl⟩

/-- The block is left highlighted where a definition fails as if there were a newer cycle. -/
theorem exists_leftLit_quitting : ∃ s, vestibule.Later s ∧ s.LeftLit := by
  obtain ⟨hlone, ha⟩ := after_creation (o := vestibule) rfl rfl
  have hs : (stateAfter creation.act vestibule).Shows
      ⟨.quitting, (stateAfter creation.act vestibule).workspace, []⟩ := by
    refine ⟨?_, rfl, ?_, (fun _ h => nomatch h), ?_⟩
    · rw [ha]; rfl
    · rw [ha]; exact .refl []
    · rw [ha]; exact fun _ h => nomatch h
  obtain ⟨text, hp⟩ : ∃ text, Session.prepare .quitting
      (stateAfter creation.act vestibule).workspace = .ok (Program.quitting.instrument, text) := by
    have hp := (hlone.sole rfl).program rfl (t := .quitting) rfl rfl fun plug => rfl
    unfold Session.prepare
    rw [hp]
    exact ⟨_, rfl⟩
  have hrun := hs.ends_runCode (unlit_lone hlone) (by rw [ha]; rfl) hp
  obtain ⟨hs, -, hready⟩ := (Ends.bind (f := fun _ => pure ()) (hrun.mono
    (fun _ _ ht => Ends.pure ht) fun _ _ he => he.elim)).stateAfter (x := Session.Event.run.act)
  rw [ha] at hready
  have hlit := hs.ends_turn_quits hready rfl rfl rfl hlone.block?_self (quits_quitting _ _)
  have hfirst : vestibule.Later (stateAfter creation.act vestibule) :=
    .single ⟨creation, trivial, rfl⟩
  exact ⟨_, (hfirst.event (e := .run) trivial).event (e := .turn) trivial,
    (hlit.mono (fun _ _ h => h) fun _ _ he => he.elim).stateAfter⟩

theorem quits_greeting {q : Session}
    (hq : ∀ wait, q.pacing wait = .error (.superseded (.int 1) (.int 2))) :
    Quits (Session.terms q (greetingCycle 1))
      [.call (.text "greet") [], .sleep (.literal (.int 1)), .restore (.text "hi")] := by
  intro clock u hclock
  refine ends_advance_steady hclock (Ends.bind (Run.ends_emit_ok rfl (Ends.pure ?_)))
  rw [if_pos rfl]
  intro clock hclock
  exact ends_advance_steady hclock (ends_perform_sleep hq fun _ hw _ =>
    Ends.throw ⟨⟨_, _, rfl⟩, hw⟩)

/-- So it is left where the wait fails so. -/
theorem exists_leftLit_waiting : ∃ (s : Scene Desk) (pacing : Pacing), s.Comes ∧
    (stateAfter Session.turn (stateAfter (Session.Event.pace pacing).act s)).LeftLit := by
  obtain ⟨s, hs⟩ := exists_greets
  obtain ⟨w, lastText, code, output, hshows, hlone, -⟩ := hs.run.shows
  let pacing : Pacing := fun _ => .error (.superseded (.int 1) (.int 2))
  have hlit := (hshows.update ({ · with pacing })).ends_turn_quits hs.run.ready rfl rfl rfl
    hlone.block?_self (quits_greeting fun _ => rfl)
  exact ⟨_, pacing, hs.run.comes, (hlit.mono (fun _ _ h => h) fun _ _ he => he.elim).stateAfter⟩

/-- And where the event loop ends while the cycle waits. -/
theorem exists_leftLit_leave : ∃ (s : Scene Desk) (t : Studio), s.Comes ∧
    Studio.leave { scene := s } = .ok () t ∧ t.scene.LeftLit := by
  obtain ⟨s, hs⟩ := exists_greets
  obtain ⟨⟨b, hb, hlit⟩, -, -, hready⟩ := hs.run.turn
  have hcomes : (stateAfter Session.turn (stateAfter Session.Event.run.act s)).Comes :=
    hs.run.comes.later (.single ⟨.turn, trivial, rfl⟩)
  generalize stateAfter Session.turn _ = s at hb hready hcomes
  -- no cycle has a turn to come, and the one that waits is given up
  have hsweep : Studio.sweep { scene := s } = .ok () { scene := s } := by
    change Studio.turns s.audience.ready.length { scene := s } = _
    rw [hready]
    rfl
  let d : Desk := { s.audience with ready := [], waiting := [], loop := false }
  refine ⟨s, { scene := { s with audience := d } }, hcomes, ?_, rfl, _, b, hb, hlit⟩
  change (Studio.sweep >>= fun _ => Studio.perform _) { scene := s } = _
  simp only [Bind.bind, EStateM.bind, hsweep]
  rfl

/-- A block can stay highlighted though no cycle is under way: where a definition, or a wait, fails as
if there were a newer cycle, and where the event loop ends before the cycle. -/
theorem lit_without_cycle :
    (Session.quitting.settings.supersedes = true ∧ ∃ s, vestibule.Later s ∧ s.LeftLit) ∧
    (∃ (s : Scene Desk) (pacing : Pacing), s.Comes ∧
      (stateAfter Session.turn (stateAfter (Session.Event.pace pacing).act s)).LeftLit) ∧
    ∃ (s : Scene Desk) (t : Studio), s.Comes ∧
      Studio.leave { scene := s } = .ok () t ∧ t.scene.LeftLit :=
  ⟨⟨rfl, exists_leftLit_quitting⟩, exists_leftLit_waiting, exists_leftLit_leave⟩

/-! ### Silence -/

/-- **A cycle that is not the newest one any more is silent ever after**, whatever has become of the
newest one.  The lines are those of the first steps of the newest cycle's program by themselves, and
of all its steps once it has come to its end; so where definitions add to the lines, they begin like
those of the program. -/
theorem Comes.silent_once_superseded {t : Scene Desk} (h : s.Comes) (ht : s.Later t) :
    (∀ c ready, t.audience.ready = c :: ready → c.generation < s.newest →
      t.SameSight (stateAfter Session.turn t)) ∧
    ∀ c ∈ s.cycles, c.generation = s.newest → t.newest = s.newest →
      ∀ r : Scene Trace, r.audience.lines = #[] →
        (∃ ran, ran <+: c.program.ops ∧
          t.lines = (stateAfter (advance
            { definitions := c.program.definitions, generation := .int c.generation } [] ran)
              r).audience.lines ∧
          ((∃ d ∈ t.results, d.generation = .int c.generation) → ran = c.program.ops)) ∧
        ∀ alone, alone = (stateAfter (c.program.run none (.int c.generation) []) r).audience.lines →
          ((∀ d ∈ c.program.definitions, d.Appends) → t.lines.toList <+: alone.toList) ∧
            ((∃ d ∈ t.results, d.generation = .int c.generation) → t.lines = alone) := by
  obtain ⟨v, hs, hv⟩ := h.exists_orderly
  obtain ⟨v', hs', hleads⟩ := ht.from hv.toSound ⟨v, hs, .refl⟩
  have hv' := hleads.orderly hv
  refine ⟨fun c ready hc hg => ?_, fun c hc hg hnewest r hr => ?_⟩
  · have hle : s.newest ≤ t.newest := by
      rw [hs.newest_eq, hs'.newest_eq]
      exact hleads.generation_le
    have hstale := hs'.ends_turn_stale hv' hc (Nat.ne_of_lt (Nat.lt_of_lt_of_le hg hle))
    exact hstale.stateAfter (P := t.SameSight)
  · have hnew : c.generation = v.session.generation := hg.trans hs.newest_eq
    have htold : v.Told c.generation c.program :=
      ⟨Nat.le_of_eq hnew, fun _ => .inl ⟨c, hs.mem_cycles.mp hc, rfl, rfl⟩⟩
    obtain ⟨ran, hran, hlines, hall⟩ := (hleads.told hv htold).lines hv'
      (hs'.newest_eq.symm.trans (hnewest.trans hg.symm))
    rw [← hs'.lines_eq] at hlines
    rw [← hs'.results_eq] at hall
    refine ⟨⟨ran, hran, ?_, hall⟩, ?_⟩
    · rw [lines_of_advance, hr, hlines]
    · rintro _ rfl
      rw [c.program.lines_of_run, hr, hlines]
      refine ⟨fun happends => ?_, fun hresult => by rw [hall hresult]⟩
      obtain ⟨rest, hops⟩ := hran
      rw [← hops]
      exact prefix_speak_append happends ran rest

/-- A cycle has put out the line of its first steps while it waits, and is silent once there is a
newer one. -/
theorem silent_once_superseded_greeting :
    (∃ s t : Scene Desk, s.Comes ∧ s.Later t ∧ t.newest = s.newest ∧ t.lines.size = 1 ∧
      ∃ c ∈ s.cycles, c.generation = s.newest ∧
        (∃ ran, ran <+: c.program.ops ∧ t.lines = (stateAfter (advance
          { definitions := c.program.definitions, generation := .int c.generation } [] ran)
            { workspace := s.workspace, audience := {} : Scene Trace }).audience.lines) ∧
        t.lines.toList <+: (stateAfter (c.program.run none (.int c.generation) [])
          { workspace := s.workspace, audience := {} : Scene Trace }).audience.lines.toList) ∧
    ∃ s : Scene Desk, s.Comes ∧ (∃ c ready, s.audience.ready = c :: ready ∧
      c.generation < s.newest) ∧ s.SameSight (stateAfter Session.turn s) := by
  obtain ⟨s, hs⟩ := exists_greets
  have h := hs.run
  obtain ⟨_, _, _, _, hshows, -⟩ := h.shows
  have happends : ∀ d ∈ Program.greeting.definitions, d.Appends := by
    intro d hd values lines
    obtain rfl := List.mem_singleton.mp hd
    exact ⟨[_], (Array.toList_push ..).symm⟩
  have hc := hshows.mem_cycles.mpr List.mem_cons_self
  have hnew := h.turn.2.2.1.trans h.newest_eq.symm
  refine ⟨⟨_, _, h.comes, .single ⟨.turn, trivial, rfl⟩, hnew, h.turn.2.1, _, hc,
    h.newest_eq.symm, ?_⟩, ?_⟩
  · obtain ⟨⟨ran, hran, hlines, -⟩, halone⟩ := (Comes.silent_once_superseded h.comes
      (.single ⟨.turn, trivial, rfl⟩)).2 _ hc h.newest_eq.symm hnew
        { workspace := _, audience := {} } rfl
    exact ⟨⟨ran, hran, hlines⟩, (halone _ rfl).1 happends⟩
  · have hnewest := (Nat.lt_succ_self 1).trans_eq h.run.newest_eq.symm
    exact ⟨_, h.run.comes, ⟨greetingCycle 1, _, h.run.ready, hnewest⟩,
      (Comes.silent_once_superseded h.run.comes .refl).1 _ _ h.run.ready hnewest⟩

end Scene

end Blockwork
