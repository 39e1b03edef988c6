import Blockwork.Proofs.Saving

/-!
# The shown program follows the workspace

Every change outside of a drag starts a cycle, and every drag ends with a change.  So where no drag is
going on, the program of the newest cycle is that of the workspace: either it is the one that is
shown, or there is none, and the newest cycle never stood in line (`Scene.UpToDate`).  Cycles that go
on keep it (`Scene.kept_upToDate`), since they edit nothing, and whenever everybody has been told of a
change it holds again (`Scene.settles_upToDate`).  A newest cycle is under way just when its program
could be made (`Scene.Ready.made_iff`), so a workspace whose newest cycle was under way at some time has
a program (`Scene.Generated`).
-/

namespace Blockwork

/-- A session only starts where there is an event loop. -/
theorem Session.loop_of_start {s t : Scene Desk} {number : Nat} {r : Bool}
    (h : Session.start number s = .ok r t) : s.audience.loop = true := by
  by_contra hloop
  have hends : Ends (Session.start number) s (fun _ _ => False) fun _ _ => True := by
    refine Ends.bind (Ends.get ?_)
    rw [Bool.not_eq_true _ |>.mp hloop]
    exact Ends.bind (Ends.throw trivial)
  exact (Ends.of_ok h).mp hends

namespace Scene

variable {f : Fixture} {n : Nat} {s t : Scene Desk} {early : List Cycle}

/-- Whether the text that the session keeps and shows is that of the program of the workspace,
whatever colours its blocks had when it was made. -/
def Shown (s : Scene Desk) : Prop := ∃ q w p text, s.audience.sessions = [q] ∧
  w.Tinted s.workspace ∧ Session.prepare q.compiler w = .ok (p, text) ∧
    q.lastText = text ∧ q.code.text = .text text

/-- Whether the program of the workspace is shown, unless a drag is going on, or the newest cycle has
none: it is neither under way nor among those that were so early. -/
def UpToDate (early : List Cycle) (s : Scene Desk) : Prop :=
  s.workspace.dragging = true ∨ s.Shown ∨
    ∀ c ∈ early ++ s.cycles, c.generation ≠ s.newest

theorem Idles.upToDate (h : s.Idles t) {q : Session} (hq : s.audience.sessions = [q])
    (hs : s.UpToDate early) : t.UpToDate early := by
  obtain hd | ⟨q, w, p, text, hq, hw, hp, htext⟩ | hnone := hs
  · exact .inl (h.workspace.gesture_eq.1.trans hd)
  · obtain ⟨q', hq', _, _, _, _, _, rfl⟩ := h.sessions q hq
    exact .inr (.inl ⟨_, w, p, text, hq', hw.trans h.workspace.tinted, hp, htext⟩)
  · refine .inr (.inr fun c hc => ?_)
    rw [h.newest_eq hq]
    rcases List.mem_append.mp hc with hc | hc
    · exact hnone c (List.mem_append_left _ hc)
    · obtain ⟨c', hc', hgen⟩ := h.cycles c hc
      exact hgen ▸ hnone c' (List.mem_append_right _ hc')

/-- A new cycle shows the program of the workspace, or has none. -/
theorem Ready.runs_upToDate (hs : s.Ready f 0 n) (hloop : f.loop = true)
    (hearly : ∀ c ∈ early, c.generation ≤ f.newest) :
    Ends (Session.runCode 0) s (fun _ t => t.UpToDate early) fun _ t => t.UpToDate early := by
  obtain ⟨q, hq, -⟩ := hs.sessions
  have hnewest := newest_singleton hq
  -- all numbers of cycles are older than the one that the session has now
  have renewed {t : Scene Desk} (ht : (s.renewed q).Idles t) : t.UpToDate early := by
    refine ht.upToDate rfl (.inr (.inr fun c hc => Nat.ne_of_lt ?_))
    rw [newest_renewed, ← hnewest]
    refine Nat.lt_succ_of_le ?_
    rcases List.mem_append.mp hc with hc | hc
    · exact (hearly c hc).trans hs.newest
    · exact hs.upTo c hc
  refine (Scene.ends_runCode hq).mono (fun _ t ht => ?_) fun _ t ht => ?_
  · obtain ⟨-, ht⟩ | ⟨-, u, p, text, hu, hp, rfl⟩ := ht
    · exact renewed ht
    · obtain ⟨q', hq', hrests⟩ := hu.sessions _ rfl
      refine .inr (.inl ⟨q'.showing text, u.workspace, p, text, ?_, .refl _, ?_, rfl, rfl⟩)
      · change u.audience.sessions.modify 0 _ = _
        rw [hq']
        rfl
      · obtain ⟨_, _, _, _, _, rfl⟩ := hrests
        exact hp
  · obtain ⟨hnone, -⟩ | ht := ht
    · rw [hs.loop, hloop] at hnone
      cases hnone
    · exact renewed ht

/-- **Once everybody has been told of a change, the program that is shown is that of the
workspace.** -/
theorem settles_upToDate (hf : f.Attended) (hl : f.archive.Lenient f.host) (hloop : f.loop = true)
    (hearly : ∀ c ∈ early, c.generation ≤ f.newest) :
    Settles f (UpToDate early) (·.warrantsCycle = true) where
  hears {n s} c hs := by
    refine Session.ends_hear (P := fun t => t.Ready f 0 n ∧ (s.UpToDate early → t.UpToDate early))
      (fun _ => ?_) (fun _ => ⟨hs, id⟩) (fun t ht _ => ?_) fun t ht hc => ?_
    · refine (hs.ends_store hl).mono (fun _ t ht => ?_) fun _ _ he => he.elim
      obtain ⟨hready, host, rfl⟩ := ht
      exact ⟨hready, id⟩
    · exact ((ht.1.ends_runCode hf).and (ht.1.runs_upToDate hloop hearly)).mono
        (fun _ _ hu => ⟨hu.1, fun _ => hu.2⟩) fun _ _ hu => hu
    · exact ⟨ht.1, fun h => ht.2 (h.resolve_left (by simp [hc]))⟩
  raised {n s m} hs hm := by
    cases hd : s.workspace.dragging with
    | true => exact .inr (.inl hd)
    | false =>
        have hview : (Act.changeOf s.workspace m).isView = false := hm.1
        left
        rw [Change.warrantsCycle, hview]
        simp [Act.changeOf, hd, hm.2]
  noted heard hs := hs
  dragged hs := .inl rfl

/-- Where cycles go on or are started, it stays so. -/
theorem kept_upToDate (hloop : f.loop = true) (hearly : ∀ c ∈ early, c.generation ≤ f.newest) :
    Kept f (UpToDate early) where
  idles hs ht hx := by
    obtain ⟨q, hq, -⟩ := hs.sessions
    exact ht.upToDate hq hx
  runs hs _ := hs.runs_upToDate hloop hearly
  looped _ hx := hx

/-- So it is with whatever happens where there is an event loop. -/
theorem Ready.upToDate (hs : s.Ready (f.looped s.audience.loop) 0 n) (hf : f.Attended)
    (hl : f.archive.Lenient f.host) (hearly : ∀ c ∈ early, c.generation ≤ f.newest)
    (hx : s.UpToDate early) (ht : s.OnwardWith (· = true) t) :
    t.Ready (f.looped t.audience.loop) 0 n ∧ t.UpToDate early :=
  OnwardWith.kept ht hf (fun _ h => settles_upToDate (f := f.looped _) (hf.looped _) hl h hearly)
    ⟨id, fun _ _ _ hx => hx, fun _ => .inl rfl⟩
    (fun _ h => kept_upToDate (f := f.looped _) h hearly) hs hx

/-- A cycle of the newest number is under way just when its program could be made. -/
theorem Ready.made_iff (hs : s.Ready f 0 n) {made : Bool}
    (hrun : Session.runCode 0 s = .ok made t) :
    made = true ↔ ∃ c ∈ t.cycles, c.generation = t.newest := by
  obtain ⟨q, hq, -⟩ := hs.sessions
  have hends := (Ends.of_ok hrun).mp (Scene.ends_runCode hq)
  obtain ⟨rfl, ht⟩ | ⟨rfl, u, p, text, hu, hp, rfl⟩ := hends
  · refine ⟨nofun, fun ⟨c, hc, hgen⟩ => ?_⟩
    obtain ⟨c', hc', hgen'⟩ := ht.cycles c hc
    have hold := hs.upTo c' hc'
    rw [newest_singleton hq] at hold
    rw [ht.newest_eq rfl, newest_renewed] at hgen
    omega
  · obtain ⟨q', hq', _, _, _, _, _, rfl⟩ := hu.sessions _ rfl
    refine ⟨fun _ => ⟨_, List.mem_append_left _ (List.mem_append_right _
      (List.mem_singleton_self _)), ?_⟩, fun _ => rfl⟩
    rw [newest_launched hq']
    rfl

/-- Whether there is a program of the newest cycle: it was under way at some time since another
scene, where there always was an event loop. -/
def Generated (b t : Scene Desk) : Prop := ∃ u, b.OnwardWith (· = true) u ∧
  u.OnwardWith (· = true) t ∧ ∃ c ∈ u.cycles, c.generation = t.newest

/-- **The shown program follows the workspace.**  Whatever happens after the start, with an event loop:
where no drag is going on, and the newest cycle has a program, the text that the session keeps and the
one that is shown are that of the workspace's program. -/
theorem SetUp.program_follows {q : Session} {r : Bool} {b : Scene Desk} {ok : Host → Prop}
    (hs : s.SetUp q) (hl : q.archive.Lenient ok) (hstart : Session.start 0 s = .ok r b)
    (hok : ok b.host) (hg : b.Generated t) (hd : t.workspace.dragging = false) :
    ∃ q' w p text, t.audience.sessions = [q'] ∧ w.Tinted t.workspace ∧
      Session.prepare q.compiler w = .ok (p, text) ∧
      q'.lastText = text ∧ q'.code.text = .text text ∧
      (q.compiler.ColourBlind → Session.prepare q.compiler t.workspace = .ok (p, text)) := by
  have hf := hs.attended
  obtain ⟨hb, u, hu, hrun⟩ := (Ends.of_ok hstart).mp (hs.ends_start (Session.loop_of_start hstart))
  -- the start ends with a cycle
  have hfirst : b.UpToDate [] :=
    (Ends.of_ok hrun).mp (hu.runs_upToDate rfl (List.forall_mem_nil _))
  let f : Fixture := { s.started q with host := ok }
  have hf : f.Attended := ⟨hf.attached, hf.company, hl.noted⟩
  obtain ⟨v, hv, ht, c, hc, hgen⟩ := hg
  obtain ⟨hready, hthen⟩ := Ready.upToDate (f := f) { hb with loop := rfl, host := hok } hf hl
    (List.forall_mem_nil _) hfirst hv
  -- from the time when the newest cycle was under way its number is kept in mind
  have hsince : v.UpToDate v.cycles := hthen.imp_right fun h => h.imp_right fun hnone c hc =>
    hnone c (by simpa using hc)
  obtain ⟨hready, hnow⟩ := Ready.upToDate (f := { f with newest := v.newest })
    { hready with newest := Nat.le_refl _ } ⟨hf.attached, hf.company, hf.noted⟩ hl hready.upTo
    hsince ht
  obtain hdrag | ⟨q', w, p, text, hq', hw, hp, htext⟩ | hnone := hnow
  · exact nomatch hd.symm.trans hdrag
  · obtain ⟨q'', hq'', -, hcompiler⟩ := hready.sessions
    obtain rfl := List.cons.inj (hq''.symm.trans hq') |>.1
    rw [show q''.compiler = q.compiler from hcompiler] at hp
    exact ⟨_, w, p, text, hq', hw, hp, htext.1, htext.2, fun hblind =>
      (hw.prepare_eq hblind).trans hp⟩
  · exact absurd hgen (hnone c (List.mem_append_left _ hc))

/-! ### The desk with one session -/

theorem colourBlind_dozing : Compiler.dozing.ColourBlind := by
  intro e he b c plug _
  obtain rfl | he := List.mem_cons.mp he
  · rfl
  · obtain rfl := List.mem_singleton.mp he
    rfl

variable {archive : Archive} {w : Workspace} {ls : List Listener} {host : Host} {text : String}

theorem Studies.newest_eq {compiler : Compiler} (h : s.Studies archive w ls host n text compiler) :
    s.newest = n := by
  obtain ⟨code, output, hq, -⟩ := h.sessions
  exact newest_singleton hq

/-- The program that is shown is that of the workspace with the block. -/
theorem program_follows_study : ∃ (t : Scene Desk) (q : Session) (p : Program) (text : String),
    t.workspace.Lone "hi" greeter ∧ t.audience.sessions = [q] ∧
      Session.prepare .dozing t.workspace = .ok (p, text) ∧
      q.lastText = text ∧ q.code.text = .text text := by
  obtain ⟨_, b, t, saved, shown, hstart, hb, hact, ht⟩ := exists_greeted
  obtain ⟨c, hc, hgen⟩ := ht.cycle
  have hgenerated : b.Generated t :=
    ⟨t, .single ⟨hb.loop, .done (e := creation) (onward_creation _) hact⟩, .refl, c, hc,
      hgen.trans ht.newest_eq.symm⟩
  obtain ⟨q, _, p, text, hq, -, -, hlast, htext, hp⟩ :=
    (setUp_study (.new 0) rfl (List.forall_mem_nil _) rfl).program_follows
    (Archive.durable_memory 0 rfl).lenient hstart (by rw [hb.host]; decide) hgenerated
    (by rw [ht.workspace]; rfl)
  exact ⟨t, q, p, text, ht.workspace ▸ lone_greeted, hq, hp colourBlind_dozing, hlast, htext⟩

/-- Whether another program is shown than that of the workspace, though no drag is going on. -/
def Outdated (t : Scene Desk) : Prop := t.workspace.dragging = false ∧ ∃ q,
  t.audience.sessions = [q] ∧ ¬ ∃ p text,
    Session.prepare q.compiler t.workspace = .ok (p, text) ∧ q.code.text = .text text

/-- Where an edit fails that has changed the workspace, another program is shown than that of the
workspace. -/
theorem exists_unshown {p : Program} (hp : Session.prepare .dozing w = .ok (p, text)) {c : Command}
    (hc : Ends c.edit w (fun _ _ => False) fun e u => e = .failure .missingKey ∧
      u.dragging = false ∧ ∃ p shown, Session.prepare .dozing u = .ok (p, shown) ∧ shown ≠ text) :
    ∃ (r : Bool) (b t : Scene Desk),
      Session.start 0 (study memoryArchive w []) = .ok r b ∧ b.Generated t ∧ t.Outdated := by
  have hstarts : Ends (Session.start 0) (study memoryArchive w [])
      (fun _ t => t.Studies memoryArchive w [] startedHost 1 text) fun _ _ => False :=
    ends_start_study rfl rfl hp
  obtain ⟨r, b, hstart, hb⟩ := hstarts.exists_ok
  have hfailed : Ends (Act.perform Desk.audience c.edit) b (fun _ _ => False) fun e t =>
      e = .failure .missingKey ∧ t.audience = b.audience ∧ t.workspace.dragging = false ∧
        ∃ p shown, Session.prepare .dozing t.workspace = .ok (p, shown) ∧ shown ≠ text :=
    Ends.bind (Act.ends_edit (hb.workspace ▸ hc.mono (fun _ _ he => he.elim)
      fun e u hu => ⟨hu.1, rfl, hu.2⟩))
  obtain ⟨code, output, hq, hcode⟩ := hb.sessions
  obtain ⟨cycle, hcycle, hgen⟩ := hb.cycle
  obtain ⟨_, t, hfail, rfl, haudience, hstill, p', shown, hp', hne⟩ := hfailed.exists_error
  have hshallow : Error.failure .missingKey = tooDeep → t = b := fun he => nomatch he
  have hfails : b.OnwardWith (· = true) t :=
    .single ⟨hb.loop, .failed (e := .call (.command c)) trivial hshallow hfail⟩
  refine ⟨r, b, t, hstart, ⟨b, .refl, hfails, cycle, hcycle, ?_⟩, hstill, _, haudience ▸ hq, ?_⟩
  · rw [newest, haudience]
    exact hgen.trans hb.newest_eq.symm
  · rintro ⟨p, text, hp, htext⟩
    cases hp'.symm.trans hp
    exact hne (Value.text.inj (hcode.symm.trans htext)).symm

/-- So it is where a block that is below another one twice is deleted with it. -/
theorem exists_unshown_deletion : ∃ (w : Workspace) (r : Bool) (b t : Scene Desk),
    History .journal Loading.namelessVocabulary w ∧
      Session.start 0 (study memoryArchive w []) = .ok r b ∧ b.Generated t ∧ t.Outdated := by
  obtain ⟨w, hw, h, hdrag⟩ := Loading.exists_doubled_still
  obtain ⟨p, shown, hp, hne⟩ := Loading.prepare_doubled h
  obtain ⟨r, b, t, hfound⟩ := exists_unshown hp (c := .delete (.text "p") false)
    ((Loading.ends_delete_drained h).mono (fun _ _ he => he) fun e u hu => by
      obtain ⟨p', hp'⟩ := prepare_topless (Workspace.tops_bare hu.2.1)
      exact ⟨hu.1, hu.2.2.trans hdrag, p', "", hp', hne.symm⟩)
  exact ⟨w, r, b, t, hw, hfound⟩

/-- And where a block with an empty id is to be deleted. -/
theorem exists_unshown_healing : ∃ (w : Workspace) (r : Bool) (b t : Scene Desk),
    Chronicle .journal .stock w ∧
      Session.start 0 (study memoryArchive w []) = .ok r b ∧ b.Generated t ∧ t.Outdated := by
  obtain ⟨w, hw, h, hdrag⟩ := Severing.exists_severed
  obtain ⟨p, hp⟩ := prepare_topless (Severing.tops_severed h)
  obtain ⟨r, b, t, hfound⟩ := exists_unshown hp (c := .delete (.text "") true)
    ((Severing.ends_delete_severed h).mono (fun _ _ he => he) fun e u hu => by
      have hp := (Severing.sole_broken hu.2.1).program rfl (t := .dozing) rfl rfl fun _ => rfl
      refine ⟨hu.1, hu.2.2.trans hdrag, ?_⟩
      unfold Session.prepare
      rw [hp]
      exact ⟨_, _, rfl, by decide +kernel⟩)
  exact ⟨w, r, b, t, hw, hfound⟩

/-- An archive in a file whose name may not be one. -/
def nulArchive : Archive := ⟨.json "\x00", .text defaultKey⟩

theorem readFile_nul {host : Host} (h : host.disk = {}) : Slots.readFile "\x00" host = .ok [] := by
  have hholds : ({} : Disk).holds "\x00" = false := by cbv
  rw [Slots.readFile, h, hholds]
  rfl

theorem get_nulArchive : nulArchive.slots.get nulArchive.key { memories := [[]] } =
    .ok none { memories := [[]] } := by
  simp only [nulArchive, Slots.get, readFile_nul]
  rfl

/-- Nothing can be written there, and that is not taken for a failure of the store. -/
theorem ends_put_nulArchive (saved : String) :
    Ends (nulArchive.slots.put nulArchive.key saved) startedHost (fun _ _ => False)
      fun e _ => e = .failure .badValue := by
  have hlocate : ({} : Disk).locate ("\x00" ++ ".tmp") = .error .badValue := by cbv
  have hwrite (text : String) : Ends (Slots.onDisk (Disk.write ("\x00" ++ ".tmp") (.text text)))
      startedHost (fun _ _ => False) fun e _ => e = .failure .badValue := by
    have hdisk : Disk.write ("\x00" ++ ".tmp") (.text text) startedHost.disk =
        .error .badValue startedHost.disk := by
      change Disk.write _ _ ({} : Disk) = _
      rw [Disk.write, Disk.task, hlocate]
      rfl
    unfold Ends Slots.onDisk
    rw [hdisk]
  have hlines : Json.lines (.dict [(.text defaultKey, .text saved)]) =
      .ok (Json.indented 0 (.dict [(.text defaultKey, .text saved)])) := rfl
  have hfile : Ends (Slots.writeFile "\x00" [(.text defaultKey, .text saved)]) startedHost
      (fun _ _ => False) fun e _ => e = .failure .badValue := by
    unfold Slots.writeFile
    rw [hlines]
    exact Ends.bind ((hwrite _).mono (fun _ _ he => he.elim) fun _ _ he => he)
  have hput : nulArchive.slots.put nulArchive.key saved startedHost =
      Slots.writeFile "\x00" [(.text defaultKey, .text saved)] startedHost := by
    simp only [nulArchive, Slots.put, readFile_nul (show startedHost.disk = {} from rfl)]
    rfl
  unfold Ends at hfile ⊢
  rwa [hput]

/-- Where the creation of a block fails after it is done, another program is shown than that of the
workspace. -/
theorem exists_unshown_creation {x : Error} (hx : x ≠ tooDeep) (hls : ls.any (Desk.isSession 0) = false)
    (hget : archive.slots.get archive.key { memories := [[]] } = .ok none { memories := [[]] })
    (htold : ∀ (b : Scene Desk) (m : Notice), b.Studies archive greeted ls startedHost 1 "" →
      m.Tells → Ends (Act.tellAll Desk.audience [m]) b (fun _ _ => False) fun e t =>
        e = x ∧ t.workspace = greeted ∧ t.audience.sessions = b.audience.sessions) :
    ∃ (r : Bool) (b t : Scene Desk),
      Session.start 0 (study archive (Workspace.new .stock 0) ls) = .ok r b ∧ b.Generated t ∧
        t.Outdated := by
  obtain ⟨p, hp⟩ := prepare_topless (Workspace.tops_bare (w := Workspace.new .stock 0) rfl)
  have hstarts : Ends (Session.start 0) (study archive (Workspace.new .stock 0) ls)
      (fun _ t => t.Studies archive (Workspace.new .stock 0) ls startedHost 1 "")
      fun _ _ => False := ends_start_study hls hget hp
  obtain ⟨r, b, hstart, hb⟩ := hstarts.exists_ok
  obtain ⟨code, output, hq, hcode⟩ := hb.sessions
  obtain ⟨c, hc, hgen⟩ := hb.cycle
  -- the block is created, but no cycle is started
  have hcreates : Ends creation.act b (fun _ _ => False)
      fun e t => e = x ∧ t.workspace = greeted ∧ t.audience.sessions = b.audience.sessions :=
    hb.ends_creation fun m hm => (htold _ m (hb.edited greeted) hm).mono (fun _ _ he => he.elim)
      fun _ _ ht => ht
  obtain ⟨_, t, hact, rfl, hw, hsessions⟩ := hcreates.exists_error
  have hfails : b.OnwardWith (· = true) t := .single ⟨hb.loop, .failed (e := creation)
    (onward_creation _) (fun he => absurd he hx) hact⟩
  refine ⟨r, b, t, hstart, ⟨b, .refl, hfails, c, hc, ?_⟩, by rw [hw]; rfl, _, hsessions.trans hq, ?_⟩
  · rw [newest, hsessions]
    exact hgen.trans hb.newest_eq.symm
  · rintro ⟨p, text, hp, htext⟩
    obtain ⟨p', text', hp', hne⟩ := prepare_greeted
    rw [hw] at hp
    cases hp'.symm.trans hp
    exact hne (Value.text.inj (hcode.symm.trans htext)).symm

/-- So it is where the workspace cannot be stored, and that is not taken for a failure of the
store. -/
theorem exists_unshown_unwritable : ∃ (r : Bool) (b t : Scene Desk),
    (study nulArchive (Workspace.new .stock 0) []).SetUp (.dozing nulArchive) ∧
      Session.start 0 (study nulArchive (Workspace.new .stock 0) []) = .ok r b ∧ b.Generated t ∧
        t.Outdated := by
  have htold (b : Scene Desk) (m : Notice) (hb : b.Studies nulArchive greeted [] startedHost 1 "")
      (hm : m.Tells) : Ends (Act.tellAll Desk.audience [m]) b (fun _ _ => False) fun e t =>
        e = .failure .badValue ∧ t.workspace = greeted ∧
          t.audience.sessions = b.audience.sessions := by
    refine hb.ends_told rfl rfl hm ?_
    obtain ⟨saved, htext⟩ := textOf_greeted
    obtain ⟨code, output, hq, -⟩ := hb.sessions
    unfold Session.save
    refine Ends.bind (Ends.bind (Ends.get (Ends.pure ?_)))
    rw [hq]
    refine Ends.bind (Act.ends_attempt (Ends.bind (Ends.get ?_)))
    dsimp only
    rw [hb.workspace, htext]
    refine Ends.bind (Act.ends_onHost (hb.host ▸ (ends_put_nulArchive saved).mono
      (fun _ _ he => he.elim) fun e host he => ?_))
    subst he
    exact Ends.throw ⟨rfl, hb.workspace, hq⟩
  obtain ⟨r, b, t, hfound⟩ := exists_unshown_creation (x := .failure .badValue)
    (fun h => nomatch h) rfl get_nulArchive htold
  exact ⟨r, b, t, setUp_study (.new 0) rfl (List.forall_mem_nil _) get_nulArchive, hfound⟩

/-- And where a guest fails before the session has heard of it. -/
theorem exists_unshown_refusal : ∃ (r : Bool) (b t : Scene Desk),
    Session.start 0 (study memoryArchive (Workspace.new .stock 0) [.guest .rude]) = .ok r b ∧
      b.Generated t ∧ t.Outdated := by
  refine exists_unshown_creation (x := .violation (.noSuchBlock (.text "nobody")))
    (fun h => nomatch h) rfl rfl fun b m hb hm => Ends.bind (Ends.bind (Ends.get ?_))
  rw [hb.workspace]
  refine Ends.bind ((ends_hearing_rude (s := b) ?_ hb.listeners hb.limit).mono
    (fun _ _ he => he.elim) fun _ _ he => ⟨he.1, he.2.1.trans hb.workspace, he.2.2.2⟩)
  rw [hb.workspace]
  exact lone_greeted.block? "nobody"

end Scene

/-- Makes a wait of a block that waits, unless it is highlighted. -/
def Compiler.gazing : Compiler where
  rules := [(.text "wait", fun site =>
    return .ops (if site.block.isHighlighted then [] else [.sleep (.literal (.int 1))]))]

/-- Where one block is all there is, it still is when it is highlighted. -/
theorem Workspace.Tinted.exists_lone {w u : Workspace} (h : w.Tinted u) {x : String} {b : Block}
    (hw : w.Lone x b) : ∃ c, b.Tinted c ∧ u.Lone x c := by
  have hentries := h.entries
  rw [hw.entries] at hentries
  obtain ⟨⟨k, c⟩, es, ⟨rfl, hc⟩, hrest, hu⟩ := List.forall₂_cons_left_iff.mp hentries
  obtain rfl := List.forall₂_nil_left_iff.mp hrest
  refine ⟨c, hc, ?_⟩
  obtain ⟨_, _, rfl⟩ := hc
  exact ⟨hu, hw.id, hw.next, hw.parent, hw.inputs⟩

namespace Scene

variable {w : Workspace}

/-- The program that is made of the block. -/
def gazed (ops : List Op) : Program where
  chains := [[{ block := .text "hi", type := .text "wait", ops }]]
  definitions := []
  imports := []

/-- The program of the cycle that starts while the block is not highlighted. -/
def gaze : Program := (gazed [.sleep (.literal (.int 1))]).instrument

/-- The text that is made of the block depends on whether it is highlighted. -/
theorem exists_prepare_gazing : ∃ shown, Session.prepare .gazing greeted = .ok (gaze, shown) ∧
    ∀ {u c}, u.Lone "hi" c → greeter.Tinted c → c.isHighlighted = true →
      ∃ p text, Session.prepare .gazing u = .ok (p, text) ∧ text ≠ shown := by
  have hp : Compiler.gazing.program greeted = .ok (gazed [.sleep (.literal (.int 1))]) :=
    (lone_greeted.sole rfl).program rfl rfl rfl (d := { used := Compiler.gazing.reserved })
      fun plug => rfl
  refine ⟨_, by unfold Session.prepare; rw [hp]; rfl, fun {u c} hu hc hlit => ?_⟩
  obtain ⟨_, _, rfl⟩ := hc
  have hp : Compiler.gazing.program u = .ok (gazed []) :=
    (hu.sole rfl).program rfl rfl rfl (d := { used := Compiler.gazing.reserved }) fun plug => by
      change EStateM.pure _ _ = _
      rw [if_pos hlit]
      rfl
  unfold Session.prepare
  rw [hp]
  exact ⟨_, _, rfl, by decide +kernel⟩

/-- The turn of that cycle highlights the block. -/
theorem ends_turn_gaze {s : Scene Desk} {q : Session} (hq : s.audience.sessions = [q])
    (hshade : q.highlighter.shade = ⟨.rgb, .int 40⟩)
    (hpacing : ∀ wait, q.pacing wait = .ok .lasting)
    (hclock : Session.clock q = []) (hw : s.workspace.Lone "hi" greeter) {ready : List Cycle}
    (hready : s.audience.ready = ⟨0, 1, gaze, gaze.ops, none⟩ :: ready) :
    Ends Session.turn s (fun _ t => ∃ b, t.workspace.find? (.text "hi") = some b ∧
      b.isHighlighted = true) fun _ _ => False := by
  unfold Session.turn
  refine Ends.bind (Ends.get ?_)
  rw [hready]
  refine Ends.bind (Ends.modify ?_)
  unfold Session.resume
  refine Ends.bind (Ends.bind (Ends.get (Ends.pure ?_)))
  rw [show ({ s with audience := { s.audience with ready } } : Scene Desk).audience.sessions[0]? =
    some q from
    hq ▸ rfl]
  refine Ends.bind (Act.ends_attempt (Act.ends_traced ?_))
  change Ends (advance (Session.terms q ⟨0, 1, gaze, gaze.ops, none⟩) (Session.clock q)
    [.highlight (.text "hi"), .sleep (.literal (.int 1)), .restore (.text "hi")]) _ _ _
  rw [hclock]
  refine ends_advance_steady (Clock.steady_nil _)
    ((ends_perform_greeter (s := ⟨s.workspace, s.host, _⟩) rfl hshade hw.block?_self).mono
      (fun pause t ht => ?_) fun _ _ he => he.elim)
  obtain ⟨rfl, hlit, -⟩ := ht
  rw [if_pos rfl]
  refine fun clock hclock => ends_advance_steady hclock
    ((ends_perform_doze hpacing).mono (fun pause u hu => ?_) fun _ _ he => he.elim)
  obtain ⟨rfl, hu, -⟩ := hu
  rw [if_neg (by decide)]
  exact Ends.modify (hu ▸ hlit)

/-- Where a compiler looks at the colours of blocks, another program can be shown than that of the
workspace once a cycle has highlighted a block. -/
theorem exists_unshown_highlight : ∃ (r : Bool) (b t : Scene Desk),
    (study memoryArchive greeted [] .gazing).SetUp (.dozing memoryArchive .gazing) ∧
      Session.start 0 (study memoryArchive greeted [] .gazing) = .ok r b ∧ b.Generated t ∧
        t.Outdated := by
  obtain ⟨shown, hp, hother⟩ := exists_prepare_gazing
  have hstarts : Ends (Session.start 0) (study memoryArchive greeted [] .gazing)
      (fun _ t => t.Studies memoryArchive greeted [] startedHost 1 shown .gazing ∧
        t.audience.ready = [⟨0, 1, gaze, gaze.ops, none⟩]) fun _ _ => False :=
    ends_start_queued rfl rfl hp
  obtain ⟨r, b, hstart, hb, hready⟩ := hstarts.exists_ok
  obtain ⟨code, output, hq, hcode⟩ := hb.sessions
  have hlone : b.workspace.Lone "hi" greeter := hb.workspace ▸ lone_greeted
  have hturn := (ends_turn_gaze hq rfl (fun _ => rfl) rfl hlone hready).and
    (keeps_turn b (Idles.refl b))
  obtain ⟨_, t, hact, ⟨c, hc, hlit⟩, hidles⟩ := (hturn.mono (fun _ _ h => h)
    fun _ _ he => he.1).exists_ok
  -- a change that changes nothing is not told
  let e : Session.Event := .call (.command (.setEnabled (.text "hi") (.bool true)))
  obtain ⟨q, hqt, _, _, _, _, _, rfl⟩ := hidles.sessions _ hq
  obtain ⟨c', htinted, hlone'⟩ := hidles.workspace.tinted.exists_lone hlone
  obtain rfl := hlone'.eq_of_block? (y := "hi") hc
  have hends : Ends e.act t (fun _ u => u = t) fun _ _ => False := by
    refine Ends.bind (Act.ends_edit (Ends.bind (Edit.ends_require (fun b hb => ?_) fun hn =>
      nomatch hn.symm.trans hc)))
    obtain rfl := Option.some.inj (hc.symm.trans hb)
    obtain ⟨_, _, rfl⟩ := htinted
    rw [if_pos (by change greeter.enabled.same (.bool true) = true; decide)]
    exact Ends.pure (Ends.pure rfl)
  have hnothing : e.act t = .ok () t := by
    obtain ⟨_, _, hok, rfl⟩ := hends.exists_ok
    exact hok
  obtain ⟨cycle, hcycle, hgen⟩ := hb.cycle
  have hthere : b.OnwardWith (· = true) t :=
    (Relation.ReflTransGen.single ⟨hb.loop, .done (e := .turn) trivial hact⟩).tail
      ⟨hidles.loop.trans hb.loop, .done (e := e) trivial hnothing⟩
  refine ⟨r, b, t, setUp_study (History.exists_created (.new 0) (by decide) (by decide)
    creates_greeter) rfl (List.forall_mem_nil _) rfl, hstart, ⟨b, .refl, hthere, cycle, hcycle,
      hgen.trans ?_⟩, ?_, _, hqt, ?_⟩
  · rw [hidles.newest_eq hq, hb.newest_eq]
  · exact hidles.workspace.gesture_eq.1.trans (hb.workspace ▸ rfl)
  · rintro ⟨p, text, hp, htext⟩
    obtain ⟨p', text', hp', hne⟩ := hother hlone' htinted hlit
    cases hp'.symm.trans hp
    exact hne (Value.text.inj (hcode.symm.trans htext)).symm

/-- The shown program does not always follow the workspace: not where an edit fails after it has
changed blocks, be it for a socket without a name or for an empty id; not where storing fails as
nobody expects, or a guest fails; and not where the compiler looks at the colours of blocks. -/
theorem shown_left_behind :
    (∃ (w : Workspace) (r : Bool) (b t : Scene Desk),
      History .journal Loading.namelessVocabulary w ∧
      Session.start 0 (study memoryArchive w []) = .ok r b ∧ b.Generated t ∧ t.Outdated) ∧
    (∃ (w : Workspace) (r : Bool) (b t : Scene Desk),
      Chronicle .journal .stock w ∧
      Session.start 0 (study memoryArchive w []) = .ok r b ∧ b.Generated t ∧ t.Outdated) ∧
    (∃ (r : Bool) (b t : Scene Desk),
      (study nulArchive (Workspace.new .stock 0) []).SetUp (.dozing nulArchive) ∧
      Session.start 0 (study nulArchive (Workspace.new .stock 0) []) = .ok r b ∧
      b.Generated t ∧ t.Outdated) ∧
    (∃ (r : Bool) (b t : Scene Desk),
      Session.start 0 (study memoryArchive (Workspace.new .stock 0) [.guest .rude]) = .ok r b ∧
      b.Generated t ∧ t.Outdated) ∧
    ∃ (r : Bool) (b t : Scene Desk),
      (study memoryArchive greeted [] .gazing).SetUp (.dozing memoryArchive .gazing) ∧
      Session.start 0 (study memoryArchive greeted [] .gazing) = .ok r b ∧
      b.Generated t ∧ t.Outdated :=
  ⟨exists_unshown_deletion, exists_unshown_healing, exists_unshown_unwritable,
    exists_unshown_refusal, exists_unshown_highlight⟩

end Scene

end Blockwork
