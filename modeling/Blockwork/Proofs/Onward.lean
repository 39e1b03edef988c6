import Blockwork.Proofs.Attending

/-!
# After the start

What happens at a desk once its session is started (`Scene.Onward`): the workspace is called, but
not loaded again, cycles go on, and the session starts cycles of its own accord.  What holds whenever
everybody has been told of a change holds after all of it (`Scene.Settles.ends_event`), if cycles
keep it.  The start itself leaves the desk ready for that (`Scene.SetUp.ends_start`).
-/

namespace Blockwork

open Relation (ReflTransGen)

namespace Session

/-- What a session does on a change, in its two parts. -/
theorem ends_hear {number : Nat} {c : Change} {s : Scene Desk} {P : Scene Desk → Prop}
    {good : Unit → Scene Desk → Prop} {bad : Error → Scene Desk → Prop}
    (hs : c.warrantsSave = true → Ends (save number) s (fun _ t => P t) bad)
    (hn : c.warrantsSave = false → P s)
    (hr : ∀ t, P t → c.warrantsCycle = true → Ends (runCode number) t (fun _ => good ()) bad)
    (hq : ∀ t, P t → c.warrantsCycle = false → good () t) : Ends (hear number c) s good bad := by
  unfold hear
  refine Ends.skip hs (fun hc => hn (by simpa using hc)) fun t ht => ?_
  split
  · exact Ends.bind ((hr t ht ‹_›).mono (fun _ _ hu => Ends.pure hu) fun _ _ hu => hu)
  · exact Ends.pure (hq t ht (by simpa using ‹¬ c.warrantsCycle = true›))

/-- Storing does nothing at the desk. -/
theorem ends_save_host (number : Nat) (s : Scene Desk) : Ends (save number) s
    (fun _ t => ∃ host, t = { s with host }) fun _ t => ∃ host, t = { s with host } := by
  unfold save
  refine Ends.bind (Ends.bind (Ends.get (Ends.pure ?_)))
  split
  · rename_i q _
    have hsaved : Ends (q.archive.save (σ := Desk)) s (fun _ t => ∃ host, t = { s with host })
        fun _ t => ∃ host, t = { s with host } := by
      refine Ends.bind (Ends.get ?_)
      split
      · exact Ends.throw ⟨_, rfl⟩
      · exact Ends.bind (Act.ends_onHost ((Ends.self _ _).mono
          (fun _ host _ => Ends.pure ⟨host, rfl⟩) fun _ host _ => ⟨host, rfl⟩))
    refine Ends.bind (Act.ends_attempt (hsaved.mono (fun _ t ht => ?_) fun e t ht => ?_))
    · exact Ends.pure ht
    · obtain ⟨host, rfl⟩ := ht
      dsimp only
      split
      · exact Ends.modify ⟨_, rfl⟩
      · exact Ends.throw ⟨_, rfl⟩
  · exact Ends.pure ⟨_, rfl⟩

end Session

namespace Scene

variable {f : Fixture} {m n : Nat} {s t : Scene Desk} {S X : Scene Desk → Prop}
  {weighty : Change → Prop}

theorem Ready.ends_runCode (h : s.Ready f m n) (hf : f.Attended) : Ends (Session.runCode 0) s
    (fun _ t => t.Ready f m n) fun _ t => t.Ready f m n := by
  obtain ⟨q, hq, -⟩ := h.sessions
  refine (drifts_runCode hq).mono (fun _ _ ht => h.drifts hf ht) fun _ _ ht => ?_
  rcases ht with rfl | ht
  · exact h
  · exact h.drifts hf ht

/-- A desk stays as it was set up, if it does so when the workspace is stored. -/
theorem settles_ready (hf : f.Attended) (hsave : ∀ {n : Nat} {s : Scene Desk}, s.Ready f 0 n →
    Ends (Session.save 0) s (fun _ t => t.Ready f 0 n) fun _ t => t.Ready f 0 n) :
    Settles f (fun _ => True) fun _ => True where
  hears _ hs := Session.ends_hear (P := fun t => t.Ready f 0 _)
    (fun _ => (hsave hs).mono (fun _ _ ht => ht) fun _ _ ht => ⟨ht, trivial⟩) (fun _ => hs)
    (fun _ ht _ => (ht.ends_runCode hf).mono (fun _ _ hu => ⟨hu, fun _ => trivial⟩)
      fun _ _ hu => ⟨hu, trivial⟩) fun _ ht _ => ⟨ht, fun _ => trivial⟩
  raised _ _ := .inl trivial
  noted _ _ := trivial
  dragged _ := trivial

/-- Wherever the workspace is stored. -/
theorem Ready.ends_save (h : s.Ready f 0 n) (hh : ∀ h, f.host h) : Ends (Session.save 0) s
    (fun _ t => t.Ready f 0 n) fun _ t => t.Ready f 0 n := by
  refine (Session.ends_save_host 0 s).mono (fun _ t ht => ?_) fun _ t ht => ?_
  · obtain ⟨host, rfl⟩ := ht
    exact h.elsewhere (hh _)
  · obtain ⟨host, rfl⟩ := ht
    exact h.elsewhere (hh _)

/-! ### Calls -/

end Scene

namespace Call

/-- Whether a call carries on with a workspace: it gives no id that may not be given, and does not
load another one. -/
def Onward (w : Workspace) : Call → Prop
  | .create _ id _ _ => w.Admits id
  | .load _ => False
  | _ => True

/-- Whether the first edit of a call can be done, and what it tells. -/
def Told (w : Workspace) (ns : List Notice) : Call → Prop
  | .create type id position fields => ∃ k w', Edit.create type id position fields w = .ok (k, ns) w'
  | .command c => ∃ w', c.edit w = .ok ns w'
  | .clear => ∃ b bs k w', w.tops = .ok (b :: bs) ∧ b.id.toKey = .ok k ∧
      Edit.delete k false w = .ok ns w'
  | .load _ => False

end Call

/-- Whether something that happens carries on with a workspace, after the start. -/
def Session.Event.Onward (w : Workspace) : Session.Event → Prop
  | .call c => c.Onward w
  | .start | .stop => False
  | _ => True

namespace Scene

variable {f : Fixture} {n : Nat} {s t : Scene Desk} {S X : Scene Desk → Prop}
  {weighty : Change → Prop}

/-- What holds where a call has come to its end: what nothing told has brought about can be given
up, and something is settled if there was something to tell but another view. -/
structure Holds (f : Fixture) (S X : Scene Desk → Prop) (n : Nat) (told : List Notice → Prop)
    (t : Scene Desk) : Prop where
  ready : t.Ready f 0 n
  kept : X t
  settled : ∀ ns, told ns → (∃ m ∈ ns, m.kind.isView = false) → S t

/-- The same where a call has failed; there something is settled if anything was done. -/
structure Fails (f : Fixture) (S X : Scene Desk → Prop) (n : Nat) (told : List Notice → Prop)
    (e : Error) (t : Scene Desk) : Prop where
  ready : t.Ready f 0 n
  kept : e ≠ tooDeep → X t
  settled : ∀ ns, told ns → e ≠ tooDeep → S t

namespace Settles

variable (h : Settles f S weighty) (hf : f.Attended) (hX : Inert S X)

include h hf hX

/-- An edit, with what it tells told. -/
theorem ends_told {α : Type} {e : Edit α} {notices : α → List Notice}
    (he : Ends e s.workspace (fun r => s.workspace.Becomes (notices r))
      fun _ w => w = s.workspace) (hs : s.Ready f 0 n) (hx : X s) :
    Ends (Act.edit e >>= fun r => Act.tellAll Desk.audience (notices r)) s
      (fun _ => Holds f S X n fun ns => ∃ r w, e s.workspace = .ok r w ∧ ns = notices r)
      (Fails f S X n fun ns => ∃ r w, e s.workspace = .ok r w ∧ ns = notices r) := by
  refine Ends.bind (Act.ends_edit (((Ends.self _ _).and he).mono (fun r w hw => ?_)
    fun x w hw => ?_))
  · refine ((h.settling hf).ends_tellAll h hX hw.2 hs hx).mono (fun _ t ht => ?_) fun x t ht => ?_
    · refine ⟨ht.1, ht.2.1, fun ns hns hm => ?_⟩
      obtain ⟨r', w', he', rfl⟩ := hns
      cases hw.1.symm.trans he'
      exact ht.2.2 hm
    · exact ⟨ht.1, fun hne => hX.settled (ht.2 hne), fun _ _ => ht.2⟩
  · obtain ⟨he, rfl⟩ := hw
    refine ⟨hs, fun _ => hx, fun ns hns => ?_⟩
    obtain ⟨r, w, he', -⟩ := hns
    cases he.symm.trans he'

/-- The commands among the edits. -/
theorem ends_command (c : Command) (hs : s.Ready f 0 n) (hx : X s) :
    Ends (Act.perform Desk.audience c.edit) s
      (fun _ => Holds f S X n fun ns => ∃ w, c.edit s.workspace = .ok ns w)
      (Fails f S X n fun ns => ∃ w, c.edit s.workspace = .ok ns w) := by
  refine (h.ends_told hf hX (hs.steady.ends_command c) hs hx).mono
    (fun _ t ht => ⟨ht.ready, ht.kept, ?_⟩) fun _ t ht => ⟨ht.ready, ht.kept, ?_⟩
  · rintro ns ⟨w, hw⟩
    exact ht.settled ns ⟨ns, w, hw, rfl⟩
  · rintro ns ⟨w, hw⟩
    exact ht.settled ns ⟨ns, w, hw, rfl⟩

theorem ends_deleteAll (ids : List Value) (hs : s.Ready f 0 n) (hx : X s) :
    Ends (Act.deleteAll Desk.audience ids) s (fun _ t => t.Ready f 0 n ∧ X t)
      fun x t => t.Ready f 0 n ∧ (x ≠ tooDeep → X t) := by
  induction ids generalizing s with
  | nil => exact Ends.pure ⟨hs, hx⟩
  | cons id ids ih =>
      refine Ends.bind (Act.ends_ofExcept (fun k _ => ?_) fun _ _ => ⟨hs, fun _ => hx⟩)
      refine Ends.bind (Ends.get ?_)
      dsimp only
      split
      · exact Ends.bind ((h.ends_command hf hX (.delete k false) hs hx).mono
          (fun _ t ht => ih ht.ready ht.kept) fun _ _ ht => ⟨ht.ready, ht.kept⟩)
      · exact ih hs hx

/-- Once a block is deleted that hangs nowhere, it goes on from there. -/
theorem ends_clear (hs : s.Ready f 0 n) (hx : X s) : Ends (Act.clear Desk.audience) s
    (fun _ => Holds f S X n fun ns => Call.clear.Told s.workspace ns)
    (Fails f S X n fun ns => Call.clear.Told s.workspace ns) := by
  by_cases htold : ∃ ns, Call.clear.Told s.workspace ns
  · obtain ⟨ns, b, bs, k, w, htops, hk, hw⟩ := htold
    have hdelete : ∃ w, (Command.delete k false).edit s.workspace = .ok ns w := ⟨w, hw⟩
    obtain ⟨hcontains, data, rfl⟩ := (Ends.of_ok hw).mp (Edit.ends_delete_told k false)
    refine Ends.bind (Ends.get (Ends.bind (Act.ends_ofExcept_ok htops ?_)))
    refine Ends.bind (Act.ends_ofExcept_ok hk (Ends.bind (Ends.get ?_)))
    dsimp only
    rw [if_pos hcontains]
    refine Ends.bind ((h.ends_command hf hX (.delete k false) hs hx).mono (fun _ t ht => ?_)
      fun _ t ht => ⟨ht.ready, ht.kept, fun _ _ => ht.settled _ hdelete⟩)
    -- what is settled by the first deletion stays settled
    have hsettled := ht.settled _ hdelete ⟨_, List.mem_singleton_self _, rfl⟩
    exact (h.ends_deleteAll hf h.inert _ ht.ready hsettled).mono
      (fun _ u hu => ⟨hu.1, hX.settled hu.2, fun _ _ _ => hu.2⟩)
      fun _ u hu => ⟨hu.1, fun hne => hX.settled (hu.2 hne), fun _ _ => hu.2⟩
  · refine Ends.bind (Ends.get (Ends.bind (Act.ends_ofExcept (fun bs _ => ?_) fun _ _ => ?_)))
    · exact (h.ends_deleteAll hf hX _ hs hx).mono
        (fun _ t ht => ⟨ht.1, ht.2, fun ns hns => absurd ⟨ns, hns⟩ htold⟩)
        fun _ t ht => ⟨ht.1, ht.2, fun ns hns => absurd ⟨ns, hns⟩ htold⟩
    · exact ⟨hs, fun _ => hx, fun ns hns => absurd ⟨ns, hns⟩ htold⟩

/-- **What holds after a call.** -/
theorem ends_call {c : Call} (hc : c.Onward s.workspace) (hs : s.Ready f 0 n) (hx : X s) :
    Ends (c.act Desk.audience) s (fun _ => Holds f S X n fun ns => c.Told s.workspace ns)
      (Fails f S X n fun ns => c.Told s.workspace ns) := by
  cases c with
  | create type id position fields =>
      have hact : (Call.create type id position fields).act Desk.audience =
          Act.edit (Edit.create type id position fields) >>= fun r =>
            Act.tellAll Desk.audience r.2 := by
        simp only [Call.act, Act.create, bind_assoc, pure_bind, bind_pure_unit]
      rw [hact]
      refine (h.ends_told hf hX (hs.steady.ends_create hc) hs hx).mono
        (fun _ t ht => ⟨ht.ready, ht.kept, ?_⟩) fun _ t ht => ⟨ht.ready, ht.kept, ?_⟩
      · rintro ns ⟨k, w, hw⟩
        exact ht.settled ns ⟨_, w, hw, rfl⟩
      · rintro ns ⟨k, w, hw⟩
        exact ht.settled ns ⟨_, w, hw, rfl⟩
  | command c => exact h.ends_command hf hX c hs hx
  | clear => exact h.ends_clear hf hX hs hx
  | load => exact hc.elim

end Settles

/-! ### Whatever happens -/

/-- What happens at a desk whose session is started: events, with or without an error, and an event
loop that comes and goes.  Only the error of too deep answers is left out, where something was done
before. -/
inductive Steps (s : Scene Desk) : Scene Desk → Prop where
  | done {e : Session.Event} {t : Scene Desk} : e.Onward s.workspace → e.act s = .ok () t → s.Steps t
  | failed {e : Session.Event} {x : Error} {t : Scene Desk} : e.Onward s.workspace →
      (x = tooDeep → t = s) → e.act s = .error x t → s.Steps t
  | looped (loop : Bool) : s.Steps { s with audience := { s.audience with loop } }

/-- Whether a scene comes of another one by what happens there after the start, where there is an
event loop, or none, as `loops` asks for whenever something happens. -/
def OnwardWith (loops : Bool → Prop) : Scene Desk → Scene Desk → Prop :=
  ReflTransGen fun s t => loops s.audience.loop ∧ s.Steps t

/-- Whether a scene comes of another one by what happens there after the start. -/
def Onward : Scene Desk → Scene Desk → Prop := OnwardWith fun _ => True

/-- Whether a property of desks is kept by cycles, and does not depend on the loop. -/
structure Kept (f : Fixture) (X : Scene Desk → Prop) : Prop where
  idles : ∀ {n : Nat} {s t : Scene Desk}, s.Ready f 0 n → s.Idles t → X s → X t
  runs : ∀ {n : Nat} {s : Scene Desk}, s.Ready f 0 n → X s →
    Ends (Session.runCode 0) s (fun _ t => X t) fun _ t => X t
  looped : ∀ {s : Scene Desk} (loop : Bool), X s →
    X { s with audience := { s.audience with loop } }

theorem Kept.or {f : Fixture} {X Y : Scene Desk → Prop} (h : Kept f X) (k : Kept f Y) :
    Kept f fun s => X s ∨ Y s where
  idles hs ht := .imp (h.idles hs ht) (k.idles hs ht)
  runs hs hx := by
    rcases hx with hx | hy
    · exact (h.runs hs hx).mono (fun _ _ => .inl) fun _ _ => .inl
    · exact (k.runs hs hy).mono (fun _ _ => .inr) fun _ _ => .inr
  looped loop := .imp (h.looped loop) (k.looped loop)

theorem Settles.ends_event (h : Settles f S weighty) (hf : f.Attended) (hX : Inert S X)
    (hk : Kept f X) {e : Session.Event} (he : e.Onward s.workspace) (hs : s.Ready f 0 n) (hx : X s) :
    Ends e.act s (fun _ t => t.Ready f 0 n ∧ X t)
      fun x t => t.Ready f 0 n ∧ (x ≠ tooDeep → X t) := by
  have idle {a : Act Desk Unit} (ha : Keeps s.Idles a) : Ends a s (fun _ t => t.Ready f 0 n ∧ X t)
      fun x t => t.Ready f 0 n ∧ (x ≠ tooDeep → X t) :=
    (ha s (.refl s)).mono (fun _ t ht => ⟨hs.idles hf ht, hk.idles hs ht hx⟩)
      fun _ t ht => ⟨hs.idles hf ht, fun _ => hk.idles hs ht hx⟩
  cases e with
  | start => exact he.elim
  | stop => exact he.elim
  | run =>
      exact Ends.bind (((hs.ends_runCode hf).and (hk.runs hs hx)).mono (fun _ t ht => Ends.pure ht)
        fun _ t ht => ⟨ht.1, fun _ => ht.2⟩)
  | call c =>
      exact (h.ends_call hf hX he hs hx).mono (fun _ t ht => ⟨ht.ready, ht.kept⟩)
        fun _ t ht => ⟨ht.ready, ht.kept⟩
  | turn => exact idle keeps_turn
  | wake place broken => exact idle (keeps_wake place broken)
  | pace pacing => exact idle (keeps_pace pacing)

theorem Ready.looped {m : Nat} (h : s.Ready f m n) (loop : Bool) :
    ({ s with audience := { s.audience with loop } } : Scene Desk).Ready (f.looped loop) m n :=
  { h with loop := rfl }

/-- **What is settled whenever something is told holds whatever happens**, if it holds at first. -/
theorem OnwardWith.kept {loops : Bool → Prop} (ht : s.OnwardWith loops t) (hf : f.Attended)
    (h : ∀ loop, loops loop → Settles (f.looped loop) S weighty) (hX : Inert S X)
    (hk : ∀ loop, loops loop → Kept (f.looped loop) X)
    (hs : s.Ready (f.looped s.audience.loop) 0 n) (hx : X s) :
    t.Ready (f.looped t.audience.loop) 0 n ∧ X t := by
  induction ht with
  | refl => exact ⟨hs, hx⟩
  | @tail u v _ hv ih =>
      obtain ⟨hloop, hv⟩ := hv
      obtain ⟨hu, hx⟩ := ih
      have hends {e : Session.Event} (he : e.Onward u.workspace) :=
        (h _ hloop).ends_event (hf.looped _) hX (hk _ hloop) he hu hx
      cases hv with
      | done he hact =>
          obtain ⟨hready, hx⟩ := (Ends.of_ok hact).mp (hends he)
          exact ⟨hready.loop.symm ▸ hready, hx⟩
      | @failed e x t he hdeep hact =>
          obtain ⟨hready, hx'⟩ := (Ends.of_error hact).mp (hends he)
          refine ⟨hready.loop.symm ▸ hready, ?_⟩
          by_cases hxe : x = tooDeep
          · exact hdeep hxe ▸ hx
          · exact hx' hxe
      | looped loop => exact ⟨hu.looped loop, (hk _ hloop).looped loop hx⟩

/-! ### The start -/

/-- Whether a desk is set up with a session for a workspace of a history: nobody listens besides but
polite guests, cycles have no numbers that are still to come, and what is stored gives no ids to
blocks that may not be given. -/
structure SetUp (q : Session) (s : Scene Desk) : Prop where
  comes : ∃ (σ : Type) (a : Audience σ) (v : Vocabulary), a.Tame ∧ v.Worded ∧
    History a v s.workspace
  told : s.workspace.muted = 0
  sessions : s.audience.sessions = [q]
  company : ∀ l ∈ s.audience.listeners, l = .session 0 ∨ ∃ g, l = .guest g ∧ g.Polite
  upTo : s.UpTo
  stored : ∀ text, q.archive.Stored s.host text → ∀ id, Archive.Gives text id → s.workspace.Admits id

theorem Ready.hushed (h : s.Ready f m n) (muted : Nat) : (s.hushed muted).Ready f muted n :=
  { h with
    sound := h.sound.gesture s.workspace.dragging muted
    muted := rfl }

/-- A stroke leaves a desk ready. -/
theorem Ready.keeps_edit {m : Nat} {α : Type} {e : Edit α}
    (hm : Keeps (fun w : Workspace => w.muted = m) e)
    (he : ∀ w : Workspace, n ≤ w.created → Stroke w (stateAfter e w)) :
    Keeps (fun s : Scene Desk => s.Ready f m n) (Act.edit e) := fun s hs => by
  have hstroke := he s.workspace hs.created
  have hafter : s.workspace.Later (stateAfter e s.workspace) ∧
      (stateAfter e s.workspace).Placed :=
    ⟨hs.sound.stroke hs.minted hstroke,
      hs.sound.holds_stroke (persistent_placed _) hs.placed hstroke⟩
  have hends := (hm s.workspace hs.muted).and (Ends.of_stateAfter
    (P := fun w => s.workspace.Later w ∧ w.Placed) hafter)
  exact Act.ends_edit (hends.mono (fun _ w hw => hs.edited hw.2.1 hw.2.2 hw.1)
    fun _ w hw => hs.edited hw.2.1 hw.2.2 hw.1)

theorem Ready.loads (hh : ∀ h, f.host h) {m : Nat}
    (htell : ∀ notice, Keeps (fun s : Scene Desk => s.Ready f m n) (Act.tell Desk.audience notice)) :
    Archive.Loads (fun s : Scene Desk => s.Ready f m n) Desk.audience where
  tell := htell
  delete k := keeps_edit ((steady_muted m).keeps_delete k false)
    fun _ _ => .command (.delete k false)
  host _ _ hs := hs.elsewhere (hh _)

theorem builds_ready {m : Nat} {text : String}
    (hids : ∀ id, Archive.Gives text id → ∀ w : Workspace, n ≤ w.created → w.Admits id) :
    Snapshot.Builds (fun s : Scene Desk => s.Ready f m n) (Archive.Gives text) where
  create _ id _ _ hid := Ready.keeps_edit ((steady_muted m).keeps_create _ _ _ _)
    fun w hw => .create (hids id hid w hw)
  disable k := Ready.keeps_edit
    ((steady_muted m).keeps_update k fun _ => ⟨rfl, rfl, rfl, rfl, rfl, rfl⟩) fun _ _ => .disable k
  connectValue above socket below := Ready.keeps_edit
    ((steady_muted m).keeps_connectValue _ _ _)
    fun _ _ => .command (.connectValue above socket below)
  connectNext above below := Ready.keeps_edit ((steady_muted m).keeps_connectNext _ _)
    fun _ _ => .command (.connectNext above below)

/-- Loading leaves a desk ready. -/
theorem Ready.ends_load (hs : s.Ready f 0 n) (hf : f.Attended) (hh : ∀ h, f.host h)
    {archive : Archive} (hids : ∀ text, archive.Stored s.host text → ∀ id, Archive.Gives text id →
      ∀ w : Workspace, n ≤ w.created → w.Admits id) :
    Ends (archive.load Desk.audience) s (fun _ t => t.Ready f 0 n) fun _ t => t.Ready f 0 n := by
  have hsettles := settles_ready hf fun ht => ht.ends_save hh
  have told (notice : Notice) :
      Keeps (fun s : Scene Desk => s.Ready f 0 n) (Act.tell Desk.audience notice) :=
    Act.keeps_tell (fun c s hs => by
      cases hc : c.isView with
      | true =>
          exact ((hsettles.settling hf).views inert_true hc hs trivial).mono (fun _ _ ht => ht.1)
            fun _ _ ht => ht.1
      | false =>
          exact ((hsettles.settling hf).tells hc hs (.inl trivial)).mono (fun _ _ ht => ht.1)
            fun _ _ ht => ht.1) notice
  have hushed (notice : Notice) :
      Keeps (fun s : Scene Desk => s.Ready f 1 n) (Act.tell Desk.audience notice) :=
    Act.keeps_tell_muted (fun _ ht => ht.muted ▸ Nat.one_ne_zero) notice
  refine Archive.ends_load (Ready.loads hh told) archive hs fun text htext t ht => ?_
  have hmuted : (t.hushed (t.workspace.muted + 1)).Ready f 1 n := by
    rw [Ready.muted ht]
    exact Ready.hushed ht 1
  have hreplaced := Archive.keeps_replace (Ready.loads hh hushed) archive
    (builds_ready (hids text htext)) _ hmuted
  refine Act.ends_quietly (hreplaced.mono (fun _ u hu => ?_) fun _ u hu => ?_)
  · rw [hu.muted]
    exact hu.hushed 0
  · rw [hu.muted]
    exact hu.hushed 0

/-- What stays the same at a desk once its session is started. -/
def started (s : Scene Desk) (q : Session) : Fixture where
  archive := q.archive
  compiler := q.compiler
  listeners := if s.audience.isAttached 0 then s.audience.listeners
    else s.audience.listeners ++ [.session 0]
  loop := true
  newest := 0
  host _ := True

variable {q : Session}

theorem SetUp.attended (h : s.SetUp q) : (s.started q).Attended where
  attached := by
    change _ ∈ if s.audience.isAttached 0 then _ else _
    split
    · rename_i hattached
      obtain ⟨l, hl, hsession⟩ := List.any_eq_true.mp hattached
      cases l with
      | guest g => cases hsession
      | session number =>
          obtain rfl := of_decide_eq_true hsession
          exact hl
    · exact List.mem_append_right _ (List.mem_singleton_self _)
  company l hl := by
    change _ ∈ (if s.audience.isAttached 0 then _ else _) at hl
    split at hl
    · exact h.company l hl
    · rcases List.mem_append.mp hl with hl | hl
      · exact h.company l hl
      · exact .inl (List.mem_singleton.mp hl)
  noted _ _ := trivial

/-- **A desk is ready once its session is started**, and the last thing that the start has done is to
start a cycle. -/
theorem SetUp.ends_start (h : s.SetUp q) (hloop : s.audience.loop = true) :
    Ends (Session.start 0) s
      (fun r t => t.Ready (s.started q) 0 s.workspace.created ∧
        ∃ u, u.Ready (s.started q) 0 s.workspace.created ∧ Session.runCode 0 u = .ok r t)
      fun _ t => t.Ready (s.started q) 0 s.workspace.created := by
  have hf := h.attended
  have hready (u : Scene Desk) (hu : u = { s with
      audience := { s.audience with listeners := (s.started q).listeners } }) :
      u.Ready (s.started q) 0 s.workspace.created := by
    subst hu
    obtain ⟨_, a, v, ha, hv, hg⟩ := h.comes
    exact {
      sound := hg.sound ha hv
      minted := (hg.grounded ha hv).2
      placed := hg.placed ha hv
      muted := h.told
      created := Nat.le_refl _
      sessions := ⟨q, h.sessions, rfl, rfl⟩
      listeners := rfl
      loop := hloop
      newest := Nat.zero_le _
      upTo := h.upTo
      host := trivial }
  have loaded (u : Scene Desk) (hu : u.Ready (s.started q) 0 s.workspace.created)
      (hhost : u.host = s.host) : Ends (q.archive.load Desk.audience) u
        (fun _ t => t.Ready (s.started q) 0 s.workspace.created)
        fun _ t => t.Ready (s.started q) 0 s.workspace.created :=
    hu.ends_load hf (fun _ => trivial) fun text htext id hid w hw =>
      (h.stored text (hhost ▸ htext) id hid).mono hw
  unfold Session.start
  refine Ends.bind (Ends.get ?_)
  rw [hloop]
  refine Ends.bind (Ends.get (Ends.skip (P := fun u =>
    u.Ready (s.started q) 0 s.workspace.created ∧ u.host = s.host) (fun ha => ?_) (fun ha => ?_)
    fun u hu => ?_))
  · have ha : ¬ s.audience.isAttached 0 = true := by simpa using ha
    refine Ends.modify ⟨hready _ ?_, rfl⟩
    rw [started, if_neg ha]
    rfl
  · have ha : s.audience.isAttached 0 = true := by simpa using ha
    refine ⟨hready _ ?_, rfl⟩
    rw [started, if_pos ha]
  · obtain ⟨hu, hhost⟩ := hu
    obtain ⟨q', hq', harchive, -⟩ := hu.sessions
    have hloaded := loaded u hu hhost
    rw [show q.archive = q'.archive from harchive.symm] at hloaded
    refine Ends.bind (Ends.bind (Ends.get (Ends.pure ?_)))
    rw [hq']
    refine Ends.bind (hloaded.mono (fun restored t ht => Ends.bind (Ends.modify ?_)) fun _ _ ht => ht)
    have hnoted (host : Host) : ({ t with host } : Scene Desk).Ready (s.started q) 0
        s.workspace.created := ht.elsewhere trivial
    exact ((Ends.self _ _).and ((hnoted _).ends_runCode hf)).mono
      (fun _ v hv => ⟨hv.2, _, hnoted _, hv.1⟩) fun _ _ hv => hv.2

end Scene

end Blockwork
