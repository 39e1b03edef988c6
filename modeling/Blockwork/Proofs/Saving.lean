import Blockwork.Proofs.Chronicle
import Blockwork.Proofs.Heedless

/-!
# The stored text follows the workspace

A session stores the workspace on every change but one of the view.  So once a change has been told
after the start, the stored text is that of the workspace, as long as storing it succeeds
(`Scene.Ready.saved_of_raised`): after every call, whether it fails or not, and whatever guests
answer and cycles do.  Where storing fails, what is stored stays, and the session goes on
(`Session.hear_of_unsaved`, `Scene.Ready.stored_iff`).
-/

namespace Blockwork

/-! ### Storing after changes -/

variable {f : Fixture} {ok : Host → Prop} {failed n : Nat}

/-- Storing the workspace fails nobody, and does nothing at the desk. -/
theorem Scene.Ready.ends_store {s : Scene Desk} (h : s.Ready f 0 n)
    (hl : f.archive.Lenient f.host) : Ends (Session.save 0) s
      (fun _ t => t.Ready f 0 n ∧ ∃ host, t = { s with host }) fun _ _ => False := by
  obtain ⟨q, hq, harchive, -⟩ := h.sessions
  refine (Session.ends_save_text hl (by rw [hq]; rfl) harchive h.host).mono (fun _ t ht => ?_)
    fun e t ht => ?_
  · obtain ⟨hok, ht, -⟩ := ht
    exact ⟨ht ▸ h.elsewhere hok, t.host, ht⟩
  · obtain ⟨-, htext, hfailure⟩ := ht
    rw [h.sound.failsBy_textOf h.placed e htext] at hfailure
    cases hfailure

namespace Scene

variable {s t : Scene Desk}

namespace Saved

variable {archive : Archive}

end Saved

section

variable {b : Scene Desk} (hb : b.Ready f 0 n) (hf : f.Attended) (hd : f.archive.Durable ok)
  (hok : ok b.host)

include hb hf hd hok

end

/-! ### Where nothing can be stored -/

end Scene

namespace Scene

/-! ### After the start -/

variable {q : Session} {b : Scene Desk}

theorem SetUp.ready (h : s.SetUp q) (hloop : s.audience.loop = true)
    (hb : stateAfter (Session.start 0) s = b) : b.Ready (s.started q) 0 s.workspace.created := by
  rw [← hb]
  exact Ends.stateAfter (P := fun t => t.Ready (s.started q) 0 s.workspace.created)
    ((h.ends_start hloop).mono (fun _ _ ht => ht.1) fun _ _ ht => ht)

end Scene

/-- Moving a block to the origin is told. -/
theorem Workspace.Listed.ends_move {v : Vocabulary} {muted : Nat} {es : List (Key × Block)}
    {w : Workspace} (h : w.Listed v muted es) {k : Key} {b : Block} (hb : Entries.get? es k = some b)
    (hd : w.dragging = false) : Ends (Edit.move k (.int 0) (.int 0)) w
      (fun ns u => (∃ m : Notice, m.Tells ∧ ns = [m]) ∧ u.muted = muted ∧ u.dragging = false ∧
        u.Listed v muted
          (Entries.put es k { b with position := [.float (.zero false), .float (.zero false)] }))
      fun _ _ => False := by
  have hplace : Edit.coordinates (.list [.int 0, .int 0]) =
      .ok [.float (.zero false), .float (.zero false)] := rfl
  unfold Edit.move
  refine Ends.bind (h.ends_require hb (Ends.bind (Edit.ends_ofExcept_ok hplace ?_)))
  refine Ends.bind (h.ends_update hb fun u hu hdrag => ?_)
  exact Ends.pure ⟨⟨_, ⟨rfl, Change.Kind.noConfusion⟩, rfl⟩, hu.muted, hdrag.trans hd, hu⟩

/-! ### A desk with one session -/

/-- Makes a wait of every block. -/
def Compiler.dozing : Compiler where
  rules := [(.text "wait", fun _ => return .ops [.sleep (.literal (.int 1))]),
    (.text "t", fun _ => return .ops [.sleep (.literal (.int 1))])]

/-- A session that stores the workspace in an archive, and whose newer cycles do not supersede older
ones. -/
def Session.dozing (archive : Archive) (compiler : Compiler := .dozing) : Session where
  settings := { supersede := .bool false }
  archive
  compiler
  highlighter := { shade := ⟨.rgb, .int 40⟩ }
  pacing _ := .ok .lasting

namespace Scene

/-- A desk with that session. -/
def study (archive : Archive) (w : Workspace) (ls : List Listener) (compiler : Compiler := .dozing) :
    Scene Desk where
  workspace := w
  host := { memories := [[]] }
  audience := { listeners := ls, sessions := [.dozing archive compiler] }

/-- The host once the session is started. -/
def startedHost : Host :=
  ({ memories := [[]] } : Host).note .info .orchestrator "Starting session (empty workspace)"

/-- Whether the session of such a desk is started, and its newest cycle, which has a number, is under
way and shows a text. -/
structure Studies (archive : Archive) (w : Workspace) (ls : List Listener) (host : Host) (n : Nat)
    (text : String) (compiler : Compiler := .dozing) (s : Scene Desk) : Prop where
  workspace : s.workspace = w
  host : s.host = host
  sessions : ∃ code output, s.audience.sessions =
      [{ Session.dozing archive compiler with generation := n, lastText := text, code, output }] ∧
    code.text = .text text
  listeners : s.audience.listeners = ls ++ [.session 0]
  limit : s.audience.answerLimit = 100
  loop : s.audience.loop = true
  cycle : ∃ c ∈ s.cycles, c.generation = n

variable {archive : Archive} {compiler : Compiler} {w : Workspace} {ls : List Listener}
  {host host' : Host} {n : Nat} {text text' saved : String} {p : Program} {s : Scene Desk}

theorem ends_runCode_dozing {lastText : String} {code : TextDisplay} {output : OutputDisplay}
    (hq : s.audience.sessions =
      [{ Session.dozing archive compiler with generation := n, lastText, code, output }])
    (hl : s.audience.listeners = ls ++ [.session 0]) (hlimit : s.audience.answerLimit = 100)
    (hloop : s.audience.loop = true)
    (hp : Session.prepare compiler s.workspace = .ok (p, text)) :
    Ends (Session.runCode 0) s
      (fun _ t => t.Studies archive s.workspace ls s.host (n + 1) text compiler ∧
        t.audience.ready = s.audience.ready ++ [⟨0, n + 1, p, p.ops, none⟩])
      fun _ _ => False := by
  unfold Session.runCode
  refine Ends.bind (Ends.get ?_)
  rw [hloop]
  refine Ends.bind (Ends.bind (Ends.get (Ends.pure ?_)))
  rw [hq]
  refine Ends.bind (Ends.modify (Ends.skip (P := (· = _)) (fun h => nomatch h) (fun _ => rfl)
    fun u hu => ?_))
  subst hu
  refine Ends.bind (Ends.get ?_)
  dsimp only [Session.dozing]
  rw [hp]
  refine Ends.bind (Ends.modify (Ends.pure ⟨?_, rfl⟩))
  exact {
    workspace := rfl
    host := rfl
    sessions := ⟨_, _, by
      change ((s.audience.sessions.modify 0 _).modify 0 _) = _
      rw [hq]
      rfl, rfl⟩
    listeners := hl
    limit := hlimit
    loop := hloop
    cycle := ⟨_, List.mem_append_left _ (List.mem_append_right _ (List.mem_singleton_self _)), rfl⟩ }

section

variable (hls : ls.any (Desk.isSession 0) = false)
  (hget : archive.slots.get archive.key { memories := [[]] } = .ok none { memories := [[]] })
  (hp : Session.prepare compiler w = .ok (p, text))

include hls hget hp

/-- What the start of the session comes to where nothing is stored, and what stands in line then. -/
theorem ends_start_queued : Ends (Session.start 0) (study archive w ls compiler)
      (fun _ t => t.Studies archive w ls startedHost 1 text compiler ∧
        t.audience.ready = [⟨0, 1, p, p.ops, none⟩]) fun _ _ => False := by
  let s : Scene Desk := study archive w (ls ++ [.session 0]) compiler
  have hload : Ends (archive.load Desk.audience) s (fun r t => r = false ∧ t = s)
      fun _ _ => False := by
    refine Ends.bind (Act.ends_attempt (Act.ends_onHost ((Ends.of_ok hget).mpr ?_)))
    exact Ends.pure ⟨rfl, rfl⟩
  unfold Session.start
  refine Ends.bind (Ends.get (Ends.bind (Ends.get ?_)))
  refine Ends.skip (P := fun t => t = s) (fun _ => Ends.modify rfl) (fun h => ?_) fun t ht => ?_
  · rw [Desk.isAttached, show (study archive w ls compiler).audience.listeners = ls from rfl, hls] at h
    exact absurd rfl h
  · subst ht
    refine Ends.bind (Ends.bind (Ends.get (Ends.pure ?_)))
    refine Ends.bind (hload.mono (fun r t ht => ?_) fun _ _ he => he)
    obtain ⟨rfl, rfl⟩ := ht
    exact Ends.bind (Ends.modify (ends_runCode_dozing (n := 0) rfl rfl rfl rfl hp))

theorem ends_start_study : Ends (Session.start 0) (study archive w ls compiler)
    (fun _ t => t.Studies archive w ls startedHost 1 text compiler) fun _ _ => False :=
  (ends_start_queued hls hget hp).mono (fun _ _ ht => ht.1) fun _ _ he => he

end

namespace Studies

theorem edited (h : s.Studies archive w ls host n text) (u : Workspace) :
    ({ s with workspace := u } : Scene Desk).Studies archive u ls host n text :=
  { h with workspace := rfl }

/-- Where a change is told, the workspace is stored, and then a cycle is started. -/
theorem ends_told (h : s.Studies archive w [] host n text) (hm : w.muted = 0)
    (hd : w.dragging = false) {m : Notice} (htells : m.Tells) {good : Unit → Scene Desk → Prop}
    {bad : Error → Scene Desk → Prop} (hsave : Ends (Session.save 0) s
      (fun _ t => Ends (Session.runCode 0) t (fun _ => good ()) bad) bad) :
    Ends (Act.tellAll Desk.audience [m]) s good bad := by
  obtain rfl := h.workspace
  have hview : (Act.changeOf s.workspace m).isView = false := htells.1
  have hcycle : (Act.changeOf s.workspace m).warrantsCycle = true := by
    rw [Change.warrantsCycle, hview]
    simp [Act.changeOf, hd, htells.2]
  have hhear : Ends (Desk.audience.hear (Act.changeOf s.workspace m)) s good bad := by
    refine Ends.bind (Ends.get ?_)
    rw [h.limit]
    refine Ends.bind (Ends.get ?_)
    rw [h.listeners]
    refine Ends.bind ((Session.ends_hear (fun _ => hsave) (fun hs => ?_) (fun _ ht _ => ht)
      fun _ _ hn => nomatch hcycle.symm.trans hn).mono (fun _ _ ht => Ends.pure ht) fun _ _ ht => ht)
    rw [Change.warrantsSave, hview] at hs
    cases hs
  refine Ends.bind (Ends.bind (Ends.get ?_))
  dsimp only
  rw [if_pos hm]
  exact Ends.bind (hhear.mono (fun _ _ ht => Ends.pure (Ends.pure ht)) fun _ _ ht => ht)

/-- So a new cycle shows its program. -/
theorem ends_tell (h : s.Studies archive w [] host n text) (hm : w.muted = 0)
    (hd : w.dragging = false) {m : Notice} (htells : m.Tells) (htext : Archive.textOf w = .ok saved)
    (hput : archive.slots.put archive.key saved host = .ok () host')
    (hp : Session.prepare .dozing w = .ok (p, text')) : Ends (Act.tellAll Desk.audience [m]) s
      (fun _ t => t.Studies archive w [] host' (n + 1) text') fun _ _ => False := by
  obtain ⟨code, output, hq, -⟩ := h.sessions
  refine h.ends_told hm hd htells ?_
  obtain rfl := h.workspace
  obtain rfl := h.host
  unfold Session.save
  refine Ends.bind (Ends.bind (Ends.get (Ends.pure ?_)))
  rw [hq]
  refine Ends.bind (Act.ends_attempt (Ends.bind (Ends.get ?_)))
  rw [htext]
  refine Ends.bind (Act.ends_onHost ((Ends.of_ok hput).mpr (Ends.pure (Ends.pure ?_))))
  exact (ends_runCode_dozing (s := { s with host := host' }) hq h.listeners h.limit h.loop hp).mono
    (fun _ _ ht => ht.1) fun _ _ he => he

end Studies

/-- Nothing is made of no blocks at the top. -/
theorem prepare_topless (h : w.tops = .ok []) : ∃ p, Session.prepare .dozing w = .ok (p, "") := by
  unfold Session.prepare
  rw [Workspace.program_topless h]
  exact ⟨_, rfl⟩

/-- The workspace with the block that waits. -/
def greeted : Workspace := (Workspace.new .stock 0).insert "hi" greeter

theorem lone_greeted : greeted.Lone "hi" greeter := Workspace.lone_insert .stock 0 "hi" _ _ _ _

theorem prepare_greeted : ∃ p text, Session.prepare .dozing greeted = .ok (p, text) ∧ text ≠ "" := by
  have hp := (lone_greeted.sole rfl).program rfl (t := .dozing) rfl rfl fun plug => rfl
  unfold Session.prepare
  rw [hp]
  exact ⟨_, _, rfl, by decide +kernel⟩

theorem textOf_greeted : ∃ text, Archive.textOf greeted = .ok text := by
  rw [Archive.textOf, (lone_greeted.sole rfl).document rfl rfl]
  exact ⟨_, rfl⟩

theorem ends_newGreeter : Ends (Edit.create (.text "wait") (.text "hi") Snapshot.origin [])
    (Workspace.new .stock 0) (fun r w => (∃ m : Notice, m.Tells ∧ r.2 = [m]) ∧ w = greeted)
    fun _ _ => False := by
  have htells : Ends (Edit.create (.text "wait") (.text "hi") Snapshot.origin [])
      (Workspace.new .stock 0) (fun r _ => ∃ m : Notice, m.Tells ∧ r.2 = [m]) fun _ _ => False :=
    Edit.ends_create (.inr ⟨"hi", rfl⟩) (fun _ hno => hno _ _ _ creates_greeter)
      fun _ _ _ _ => ⟨_, ⟨rfl, Change.Kind.noConfusion⟩, rfl⟩
  exact (htells.and (Ends.of_stateAfter (P := (· = _))
    (Edit.stateAfter_create creates_greeter))).mono (fun _ _ h => h) fun _ _ he => he.1

/-- Where the block is created at such a desk, everybody is told. -/
theorem Studies.ends_creation (h : s.Studies archive (Workspace.new .stock 0) ls host n text)
    {good : Unit → Scene Desk → Prop} {bad : Error → Scene Desk → Prop}
    (hg : ∀ m : Notice, m.Tells →
      Ends (Act.tellAll Desk.audience [m]) { s with workspace := greeted } good bad) :
    Ends creation.act s good bad := by
  refine Ends.bind (Ends.bind (Act.ends_edit (h.workspace ▸ ends_newGreeter.mono (fun r w hw => ?_)
    fun _ _ he => he.elim)))
  obtain ⟨⟨m, hm, hr⟩, rfl⟩ := hw
  rw [show r = (r.1, [m]) from Prod.ext rfl hr]
  exact Ends.bind ((hg m hm).mono (fun _ _ ht => Ends.pure (Ends.pure ht)) fun _ _ he => he)

/-- An archive in memory. -/
def memoryArchive : Archive := ⟨.memory 0, .text defaultKey⟩

theorem setUp_study (hw : History .journal .stock w) (hm : w.muted = 0)
    (hls : ∀ l ∈ ls, l = .session 0 ∨ ∃ g, l = .guest g ∧ g.Polite)
    (hget : archive.slots.get archive.key { memories := [[]] } = .ok none { memories := [[]] }) :
    (study archive w ls compiler).SetUp (.dozing archive compiler) where
  comes := ⟨_, .journal, .stock, Audience.tame_journal, Vocabulary.worded_stock, hw⟩
  told := hm
  sessions := rfl
  company := hls
  upTo _ h := nomatch h
  stored text h := by
    obtain ⟨host, hget'⟩ := h
    cases hget.symm.trans hget'

/-- The host once the workspace is stored. -/
def savedHost (saved : String) : Host := startedHost.setMemory 0 [(.text defaultKey, saved)]

theorem onward_creation (w : Workspace) :
    (Call.create (.text "wait") (.text "hi") Snapshot.origin []).Onward w :=
  w.admits_text (by decide) (by decide)

/-- After the start a block is created. -/
theorem exists_greeted : ∃ r b t saved shown,
    Session.start 0 (study memoryArchive (Workspace.new .stock 0) []) = .ok r b ∧
      b.Studies memoryArchive (Workspace.new .stock 0) [] startedHost 1 "" ∧
      creation.act b = .ok () t ∧ t.Studies memoryArchive greeted [] (savedHost saved) 2 shown := by
  obtain ⟨p, hp⟩ := prepare_topless (Workspace.tops_bare (w := Workspace.new .stock 0) rfl)
  have hstarts : Ends (Session.start 0) (study memoryArchive (Workspace.new .stock 0) [])
      (fun _ t => t.Studies memoryArchive (Workspace.new .stock 0) [] startedHost 1 "")
      fun _ _ => False := ends_start_study rfl rfl hp
  obtain ⟨r, b, hstart, hb⟩ := hstarts.exists_ok
  obtain ⟨p, shown, hp, -⟩ := prepare_greeted
  obtain ⟨saved, htext⟩ := textOf_greeted
  have hcreates : Ends creation.act b
      (fun _ t => t.Studies memoryArchive greeted [] (savedHost saved) 2 shown) fun _ _ => False :=
    hb.ends_creation fun m hm => (hb.edited greeted).ends_tell rfl rfl hm htext rfl hp
  obtain ⟨_, t, hact, ht⟩ := hcreates.exists_ok
  exact ⟨r, b, t, saved, shown, hstart, hb, hact, ht⟩

end Scene

namespace Loading

open Scene

variable {w : Workspace} {muted : Nat}

theorem prepare_doubled (h : w.Listed namelessVocabulary muted doubled) :
    ∃ p text, Session.prepare .dozing w = .ok (p, text) ∧ text ≠ "" := by
  have hfragment (b : Block) (hb : b.type = .text "t") (d : Draft) :
      Compile.fragment .dozing w b d =
        .ok { block := b.id, type := b.type, ops := [.sleep (.literal (.int 1))] } d := by
    rw [Compile.fragment, Compile.nestingLimit, Compile.outcome, hb]
    rfl
  have hchain (d : Draft) : Compile.chain .dozing w { plugged with next := .text "c" } d = .ok [
      { block := .text "p", type := .text "t", ops := [.sleep (.literal (.int 1))] },
      { block := .text "c", type := .text "t", ops := [.sleep (.literal (.int 1))] }] d := by
    have hid : ({ plugged with next := .text "c" } : Block).id.toKey = .ok (.text "p") := rfl
    have hon : [({ plugged with next := .text "c" } : Block), hung "c"].filter (·.isEnabled) =
        [{ plugged with next := .text "c" }, hung "c"] := rfl
    have hp := hfragment { plugged with next := .text "c" } rfl
    have hc := hfragment (hung "c") rfl
    unfold Compile.chain
    rw [hid]
    simp only [Bind.bind, Except.bind, chain_doubled h, doubled, Compile.ofExcept, EStateM.bind,
      Pure.pure,
      EStateM.pure, List.map_cons, List.map_nil, hon, List.mapM_cons, List.mapM_nil, hp, hc]
    rfl
  have hp : Compiler.dozing.program w = .ok { chains := [[
      { block := .text "p", type := .text "t", ops := [.sleep (.literal (.int 1))] },
      { block := .text "c", type := .text "t", ops := [.sleep (.literal (.int 1))] }]]
                                              definitions := []
                                              imports := [] } := by
    unfold Compiler.program Compile.chains
    simp only [tops_doubled h, Compile.ofExcept, Bind.bind, EStateM.bind, Pure.pure, EStateM.pure,
      List.mapM_cons, List.mapM_nil, hchain]
    rfl
  unfold Session.prepare
  rw [hp]
  exact ⟨_, _, rfl, by decide +kernel⟩

end Loading

namespace Severing

open Scene

end Severing

namespace Scene

variable {s : Scene Desk} {ls : List Listener}

end Scene

/-- Fails whatever is heard, since he wants to delete a block that is not there. -/
def Guest.rude : Guest where
  seat := 0
  respond _ _ := [Edit.delete (.text "nobody") false]

namespace Scene

variable {s : Scene Desk} {ls : List Listener}

theorem ends_hearing_rude {c : Change} (hn : s.workspace.find? (.text "nobody") = none)
    (hl : s.audience.listeners = .guest .rude :: ls) (hlimit : s.audience.answerLimit = 100) :
    Ends (Desk.audience.hear c) s (fun _ _ => False) fun e t =>
      e = .violation (.noSuchBlock (.text "nobody")) ∧ t.workspace = s.workspace ∧ t.host = s.host ∧
        t.audience.sessions = s.audience.sessions := by
  refine Ends.bind (Ends.get ?_)
  rw [hlimit]
  refine Ends.bind (Ends.get ?_)
  rw [hl]
  refine Ends.bind (Ends.modify (Ends.bind (Ends.get ?_)))
  refine Ends.bind (Ends.bind (Ends.bind (Act.ends_edit (Ends.bind
    (Edit.ends_require (fun b hb => nomatch hn.symm.trans hb) fun _ => ?_)))))
  exact ⟨rfl, rfl, rfl, rfl⟩

end Scene

end Blockwork
