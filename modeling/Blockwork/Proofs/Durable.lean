import Blockwork.Proofs.Idling
import Blockwork.Proofs.Storing

/-!
# Archives that keep what is put into them

An archive is `Archive.Durable` when a text that was put into it is found, and a failure to put one
in, by a failure of the store, leaves what was there.  Slots in memory are (`Archive.durable_memory`).
What goes into the log makes no difference to any slots (`Archive.stored_noted`), and a sound
workspace has a text to be stored, unless values are plugged into one another too deep
(`Workspace.Sound.failsBy_textOf`).
-/

namespace Blockwork

/-! ### Texts of workspaces -/

namespace Workspace

variable {w : Workspace} {x : String} {b : Block}

/-- Whether an error is that of values that are plugged into one another too deep. -/
def TooDeep (e : Error) : Prop := e = .failure .tooDeep

theorem Sound.failsBy_ofBlock (h : w.Sound) (n : Nat) (hb : w.block? x = some b) :
    FailsBy TooDeep (Snapshot.ofBlock w n b) := by
  induction n generalizing x b with
  | zero => exact FailsBy.error rfl
  | succ n ih =>
      obtain ⟨d, htype, hd⟩ := h.exists_type hb
      rw [Snapshot.ofBlock_succ]
      refine FailsBy.bind_ok hd (FailsBy.bind ?_ fun _ => FailsBy.ok _)
      rw [h.plugs_eq hb htype]
      refine FailsBy.mapM fun p hp => ?_
      obtain ⟨q, hq, rfl⟩ := List.mem_map.mp hp
      obtain ⟨c, hc⟩ := Option.isSome_iff_exists.mp (h.isSome_child (child?_of_mem_plugged hq))
      refine FailsBy.bind_ok (Value.toKey_text _) ?_
      rw [show w.find? (.text q.2) = some c from hc]
      exact (ih hc).bind fun _ => FailsBy.ok _

theorem Sound.failsBy_ofChain (h : w.Sound) (hp : w.Placed) (hb : w.block? x = some b) :
    FailsBy TooDeep (Snapshot.ofChain w b) := by
  obtain ⟨l, chain, -, hchain, hall⟩ := h.exists_chain (x := x) (by rw [hb]; rfl)
  obtain ⟨cx, cy, hpos⟩ := hp x b hb
  have hcx : coordinate b 0 = .ok (.float cx) := by rw [coordinate, hpos]; rfl
  have hcy : coordinate b 1 = .ok (.float cy) := by rw [coordinate, hpos]; rfl
  rw [Snapshot.ofChain_eq, h.id_eq hb]
  refine FailsBy.bind_ok (Value.toKey_text _) (FailsBy.bind_ok hchain ?_)
  refine (h.failsBy_ofBlock _ hb).bind fun _ => FailsBy.bind_ok hcx (FailsBy.bind_ok hcy ?_)
  refine FailsBy.bind (FailsBy.mapM fun e he => ?_) fun _ => FailsBy.ok _
  obtain ⟨y, -, -, hy⟩ := exists_of_mem_forall₂ hall (List.mem_of_mem_tail he)
  exact (h.failsBy_ofBlock _ hy).bind fun _ => FailsBy.ok _

/-- **A workspace has a text, unless values are plugged into one another too deep.** -/
theorem Sound.failsBy_textOf (h : w.Sound) (hp : w.Placed) :
    FailsBy TooDeep (Archive.textOf w) := by
  obtain ⟨tops, htops, hperm, -⟩ := h.exists_tops hp
  obtain ⟨xs, hxs, -⟩ := h.exists_topmost hperm
  refine FailsBy.bind (FailsBy.bind_ok htops (FailsBy.bind (FailsBy.mapM fun b hb => ?_) ?_)) ?_
  · obtain ⟨x, -, hx⟩ := exists_of_mem_forall₂ hxs hb
    exact h.failsBy_ofChain hp hx.1
  · intro chains
    split
    · exact FailsBy.ok _
    · exact FailsBy.ok _
  · intro document
    unfold Json.line Json.write
    split
    · exact FailsBy.error rfl
    · exact FailsBy.ok _

end Workspace

/-! ### Slots and the log -/

namespace Host

/-- Whether the log of a host is that of another one with more entries. -/
def Extends (h h' : Host) : Prop := ∃ more, h'.log = h.log ++ more

variable {h h' : Host}

theorem Extends.refl (h : Host) : h.Extends h := ⟨#[], by rw [Array.append_empty]⟩

theorem Extends.trans {h'' : Host} (he : h.Extends h') (he' : h'.Extends h'') : h.Extends h'' := by
  obtain ⟨more, he⟩ := he
  obtain ⟨more', he'⟩ := he'
  exact ⟨more ++ more', by rw [he', he, Array.append_assoc]⟩

theorem Noted.extends (hn : h.Noted h') : h.Extends h' := by
  obtain ⟨more, rfl⟩ := hn
  exact ⟨more, rfl⟩

end Host

namespace Slots

variable {h : Host}

theorem openDatabase_logged (path : String) (log : Array LogEntry) : Ends (openDatabase path) h
    (fun r t => openDatabase path { h with log } = .ok r { t with log })
    fun e t => openDatabase path { h with log } = .error e { t with log } := by
  have created (place : Place) (c : Content) : Ends (openDatabase.create h place c) h
      (fun r t => openDatabase.create { h with log } place c { h with log } = .ok r { t with log })
      fun e t => openDatabase.create { h with log } place c { h with log } = .error e { t with log } := by
    unfold openDatabase.create
    dsimp only
    split
    · exact Ends.bind (Ends.set (Ends.throw rfl))
    · exact Ends.bind (Ends.set (Ends.pure rfl))
  unfold openDatabase
  split
  · exact Ends.pure rfl
  · refine Ends.bind (Ends.get ?_)
    have hdo (f : Host → EStateM Failure Host (Option Place × List (String × String))) :
        (MonadState.get >>= f) { h with log } = f { h with log } { h with log } := rfl
    simp only [hdo]
    cases h.disk.locateDatabase path with
    | error f => exact Ends.throw rfl
    | ok place =>
        dsimp only
        cases (h.disk.walk [] place).bind h.disk.readAt with
        | ok c =>
            have opened : Ends (if isUnwritten c then openDatabase.create h place c else
                throw .notDatabase) h
              (fun r t => (if isUnwritten c then openDatabase.create { h with log } place c else
                throw .notDatabase) { h with log } = .ok r { t with log })
              (fun e t => (if isUnwritten c then openDatabase.create { h with log } place c else
                throw .notDatabase) { h with log } = .error e { t with log }) := by
              split
              · exact created place c
              · exact Ends.throw rfl
            cases c with
            | slots rows => exact Ends.pure rfl
            | _ => exact opened
        | error f =>
            cases f with
            | missingFile =>
                dsimp only
                split
                · exact created place _
                · exact Ends.throw rfl
            | _ => exact Ends.throw rfl

/-- What is found in slots does not depend on the log. -/
theorem get_logged (s : Slots) (key : Value) (log : Array LogEntry) :
    Ends (s.get key) h (fun found t => s.get key { h with log } = .ok found { t with log })
      fun e t => s.get key { h with log } = .error e { t with log } := by
  have hread (path : String) : readFile path { h with log } = readFile path h := rfl
  cases s with
  | memory n =>
      have hmemory : ({ h with log } : Host).memory n = h.memory n := rfl
      unfold Ends get
      dsimp only
      rw [hmemory]
      cases key.toKey with
      | ok k => rfl
      | error e => rfl
  | broken =>
      unfold Ends get
      rfl
  | json path =>
      unfold Ends get
      simp only [hread]
      cases readFile path h with
      | error e => rfl
      | ok es =>
          cases key.toKey with
          | error e => rfl
          | ok k =>
              dsimp only
              cases (Entries.get? es k).getD .null with
              | text s => rfl
              | null => rfl
              | _ => rfl
  | database path =>
      have hopen := openDatabase_logged (h := h) path log
      unfold Ends get at *
      dsimp only
      cases hx : openDatabase path h with
      | error e t =>
          rw [hx] at hopen
          rw [hopen]
      | ok r t =>
          rw [hx] at hopen
          rw [hopen]
          cases columnOf key with
          | ok column => rfl
          | error e => rfl

end Slots

/-! ### Archives that keep what is put into them -/

namespace Archive

variable {archive : Archive} {ok : Host → Prop} {h h' : Host} {text : String}

theorem stored_logged (log : Array LogEntry) (ht : archive.Stored h text) :
    archive.Stored { h with log } text := by
  obtain ⟨host, hget⟩ := ht
  exact ⟨_, (Ends.of_ok hget).mp (Slots.get_logged archive.slots archive.key log)⟩

/-- What is stored does not depend on the log. -/
theorem stored_noted (hn : h.Noted h') : archive.Stored h' text ↔ archive.Stored h text := by
  obtain ⟨more, rfl⟩ := hn
  exact ⟨stored_logged (h := { h with log := h.log ++ more }) h.log, stored_logged _⟩

/-- Whether putting a text into an archive fails by failures of the store only, as long as the host is
in order. -/
structure Lenient (archive : Archive) (ok : Host → Prop) : Prop where
  noted : ∀ {h h' : Host}, h.Noted h' → ok h → ok h'
  put : ∀ {h : Host} (text : String), ok h → Ends (archive.slots.put archive.key text) h
    (fun _ h' => ok h') fun e h' => ok h' ∧ Session.isSaveFailure e = true

/-- Whether an archive keeps what is put into it, as long as the host is in order: a text that was
put is found, and where putting fails, by a failure of the store, what was there is found as
before. -/
structure Durable (archive : Archive) (ok : Host → Prop) : Prop where
  noted : ∀ {h h' : Host}, h.Noted h' → ok h → ok h'
  put : ∀ {h : Host} (text : String), ok h → Ends (archive.slots.put archive.key text) h
    (fun _ h' => ok h' ∧ archive.Stored h' text)
    fun e h' => ok h' ∧ Session.isSaveFailure e = true ∧
      ∀ text, archive.Stored h' text ↔ archive.Stored h text

/-- Whether nothing can be put into an archive, by a failure of the store, and what is there stays. -/
structure Unwritable (archive : Archive) (ok : Host → Prop) : Prop where
  noted : ∀ {h h' : Host}, h.Noted h' → ok h → ok h'
  put : ∀ {h : Host} (text : String), ok h → Ends (archive.slots.put archive.key text) h
    (fun _ _ => False)
    fun e h' => ok h' ∧ Session.isSaveFailure e = true ∧
      ∀ text, archive.Stored h' text ↔ archive.Stored h text

theorem Durable.lenient (h : archive.Durable ok) : archive.Lenient ok where
  noted := h.noted
  put text hok := (h.put text hok).mono (fun _ _ hh => hh.1) fun _ _ hh => ⟨hh.1, hh.2.1⟩

/-- Where nothing can be put into an archive, what is there stays. -/
theorem Unwritable.lenient (hr : archive.Unwritable ok) (h : Host) : archive.Lenient fun h' =>
    ok h' ∧ ∀ text, archive.Stored h' text ↔ archive.Stored h text where
  noted hn hh := ⟨hr.noted hn hh.1, fun text => (stored_noted hn).trans (hh.2 text)⟩
  put text hh := (hr.put text hh.1).mono (fun _ _ hf => hf.elim) fun _ _ he =>
    ⟨⟨he.1, fun text => (he.2.2 text).trans (hh.2 text)⟩, he.2.1⟩

/-- Slots in memory keep what is put into them. -/
theorem durable_memory (number : Nat) {key : Value} {k : Key} (hk : key.toKey = .ok k) :
    Durable ⟨.memory number, key⟩ fun h => number < h.memories.length where
  noted hn hok := by
    obtain ⟨more, rfl⟩ := hn
    exact hok
  put {h} text hok := by
    have hput : (Slots.memory number).put key text h =
        .ok () (h.setMemory number (Entries.put (h.memory number) k text)) := by
      simp only [Slots.put, hk]
    have hfound : (Entries.get? (Entries.put (h.memory number) k text) k) = some text := by
      rw [Entries.get?_put, if_pos BEq.rfl]
    refine (Ends.of_ok hput).mpr ⟨?_, h.setMemory number (Entries.put (h.memory number) k text), ?_⟩
    · rwa [Host.setMemory, List.length_set]
    · simp only [Slots.get, hk, Host.memory_setMemory hok, hfound]

end Archive

/-- Storing the workspace ends with an error only if the workspace has no text. -/
theorem Session.ends_save_text {ok : Host → Prop} {archive : Archive} (hl : archive.Lenient ok)
    {number : Nat} {q : Session} {s : Scene Desk} (hq : s.audience.sessions[number]? = some q)
    (harchive : q.archive = archive) (hs : ok s.host) :
    Ends (Session.save number) s
      (fun _ t => ok t.host ∧ t = { s with host := t.host } ∧
        ∀ e, Archive.textOf s.workspace = .error e → Session.isSaveFailure e = true)
      fun e t => t = s ∧ Archive.textOf s.workspace = .error e ∧
        Session.isSaveFailure e = false := by
  have saved : Ends (q.archive.save (σ := Desk)) s
      (fun _ t => ok t.host ∧ t = { s with host := t.host } ∧
        ∃ text, Archive.textOf s.workspace = .ok text)
      fun e t => ok t.host ∧ t = { s with host := t.host } ∧
        ((∃ text, Archive.textOf s.workspace = .ok text) ∧ Session.isSaveFailure e = true ∨
          Archive.textOf s.workspace = .error e ∧ t = s) := by
    refine Ends.bind (Ends.get ?_)
    cases hx : Archive.textOf s.workspace with
    | error e => exact Ends.throw ⟨hs, rfl, .inr ⟨rfl, rfl⟩⟩
    | ok text =>
        rw [harchive]
        exact Ends.bind (Act.ends_onHost ((hl.put text hs).mono
          (fun _ _ hh => Ends.pure ⟨hh, rfl, text, rfl⟩)
          fun _ _ hh => ⟨hh.1, rfl, .inl ⟨⟨text, rfl⟩, hh.2⟩⟩))
  unfold Session.save
  refine Ends.bind (Ends.bind (Ends.get (Ends.pure ?_)))
  rw [hq]
  refine Ends.bind (Act.ends_attempt (saved.mono (fun _ t ht => ?_) fun e t ht => ?_))
  · obtain ⟨hok, ht, text, htext⟩ := ht
    exact Ends.pure ⟨hok, ht, fun e he => nomatch htext.symm.trans he⟩
  · obtain ⟨hok, ht, hcause⟩ := ht
    dsimp only
    split
    · rename_i hfailure
      refine Ends.modify ⟨hl.noted ((Host.Noted.refl _).note _ _ _) hok, by rw [ht], ?_⟩
      intro e' he'
      obtain ⟨⟨text, htext⟩, -⟩ | ⟨htext, -⟩ := hcause
      · cases htext.symm.trans he'
      · cases htext.symm.trans he'
        exact hfailure
    · rename_i hfailure
      obtain ⟨-, hfailure'⟩ | ⟨htext, rfl⟩ := hcause
      · exact absurd hfailure' hfailure
      · exact Ends.throw ⟨rfl, htext, by simpa using hfailure⟩

end Blockwork
