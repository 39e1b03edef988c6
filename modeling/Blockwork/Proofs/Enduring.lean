import Blockwork.Proofs.Lasting
import Blockwork.Session.Basic

/-!
# What endures at a desk

A property of scenes is `Enduring` when it is kept by edits of the workspace, by what is noted and
stored, by listeners who come and go, and by the start of a cycle.  Listeners do no more than that
when they hear of a change, however deep guests answer edits with edits (`Enduring.keeps_audience`),
and neither do calls of the workspace, loading among them (`Enduring.keeps_call`), nor does the
start of a session (`Enduring.keeps_start`).
-/

namespace Blockwork

namespace Workspace

/-- Whether a workspace comes of another one by changes that edits are made of, and by keeping
changes from the audience more or less often. -/
def Edited (w w' : Workspace) : Prop :=
  ∀ P : Workspace → Prop, Lasting P → (∀ w muted, P w → P { w with muted }) → P w → P w'

theorem Edited.refl (w : Workspace) : w.Edited w := fun _ _ _ h => h

theorem lasting_edited (w : Workspace) : Lasting w.Edited where
  changed k _ hf h P hP hm hw := hP.changed k hf (h P hP hm hw)
  added k _ n hb h P hP hm hw := hP.added k n hb (h P hP hm hw)
  taken k h P hP hm hw := hP.taken k (h P hP hm hw)
  dragged d h P hP hm hw := hP.dragged d (h P hP hm hw)

theorem edited_muted (w : Workspace) (muted : Nat) : w.Edited { w with muted } :=
  fun _ _ hm hw => hm w muted hw

end Workspace

/-- Whether a guest answers what he hears with nothing but commands. -/
def Guest.Civil (g : Guest) : Prop :=
  ∀ c w, ∀ e ∈ g.respond c w, ∃ command : Command, e = command.edit

/-- Whether a property of scenes with civil guests is kept by all that listeners and calls are made
of. -/
structure Enduring (P : Scene Desk → Prop) : Prop where
  edited : ∀ {s : Scene Desk} {w : Workspace}, s.workspace.Edited w → P s →
    P { s with workspace := w }
  elsewhere : ∀ {s : Scene Desk} (host : Host), P s → P { s with host }
  noted : ∀ {s : Scene Desk} (heard : Array (Nat × Change)), P s →
    P { s with audience := { s.audience with heard } }
  seated : ∀ {s : Scene Desk} {listeners : List Listener},
    (∀ g, .guest g ∈ listeners → g.Civil) → P s →
      P { s with audience := { s.audience with listeners } }
  civil : ∀ {s : Scene Desk}, P s → ∀ g, .guest g ∈ s.audience.listeners → g.Civil
  runs : ∀ number, Keeps P (Session.runCode number)

namespace Enduring

variable {P : Scene Desk → Prop} (h : Enduring P)

include h

/-! ### Listeners -/

/-- An edit that is made of lasting changes. -/
theorem keeps_edit {α : Type} {e : Edit α} (he : ∀ P, Steady P → Keeps P e) :
    Keeps P (Act.edit e) := fun s hs =>
  Act.ends_edit ((he _ (Workspace.lasting_edited s.workspace).steady _ (.refl _)).mono
    (fun _ _ hw => h.edited hw hs) fun _ _ hw => h.edited hw hs)

theorem keeps_note (level : Level) (area : Area) (text : String) :
    Keeps P (Act.note level area text) := fun _ hs => Ends.modify (h.elsewhere _ hs)

theorem keeps_save (number : Nat) : Keeps P (Session.save number) := by
  have stored (archive : Archive) : Keeps P (archive.save (σ := Desk)) := by
    refine Keeps.get.bind fun s => ?_
    split
    · exact Keeps.throw _
    · refine Keeps.bind (fun s hs => Act.ends_onHost ?_) fun _ => Keeps.pure _
      exact (Ends.self _ _).mono (fun _ host _ => h.elsewhere host hs)
        fun _ host _ => h.elsewhere host hs
  unfold Session.save
  refine Keeps.bind (Keeps.get.bind fun _ => Keeps.pure _) fun s => ?_
  split
  · refine (Act.keeps_attempt (stored _)).bind fun r => ?_
    split
    · exact Keeps.pure ()
    · split
      · exact h.keeps_note _ _ _
      · exact Keeps.throw _
  · exact Keeps.pure ()

/-- What a session does on a change. -/
theorem keeps_hear (number : Nat) (c : Change) : Keeps P (Session.hear number c) := by
  unfold Session.hear
  extract_lets cycled
  have cycles (u : PUnit) : Keeps P (cycled u) := by
    unfold cycled
    split
    · exact (h.runs number).bind fun _ => Keeps.pure ()
    · exact Keeps.pure ()
  split
  · exact (h.keeps_save number).bind fun _ => cycles ()
  · exact cycles ()

theorem keeps_tellEach {a : Audience Desk} (ha : ∀ c, Keeps P (a.hear c)) (c : Change)
    {ls : List Listener} (hl : ∀ g, .guest g ∈ ls → g.Civil) :
    Keeps P (Desk.tellEach a c ls) := by
  induction ls with
  | nil => exact Keeps.pure ()
  | cons l ls ih =>
      have rest := ih fun g hg => hl g (List.mem_cons_of_mem _ hg)
      cases l with
      | session number => exact (h.keeps_hear number c).bind fun _ => rest
      | guest g =>
          have answered (es : List (Edit (List Notice)))
              (hes : ∀ e ∈ es, ∃ command : Command, e = command.edit) :
              Keeps P (Desk.performAll a es) := by
            induction es with
            | nil => exact Keeps.pure ()
            | cons e es ih =>
                rw [List.forall_mem_cons] at hes
                obtain ⟨command, rfl⟩ := hes.1
                refine (Act.keeps_perform (Act.keeps_tell ha) ?_).bind fun _ => ih hes.2
                exact h.keeps_edit fun P hP => hP.keeps_command command
          have noted : Keeps P (Desk.note g.seat c) := fun _ hs => Ends.modify (h.noted _ hs)
          refine noted.bind fun _ => Keeps.get.bind fun s => ?_
          exact (answered _ (hl g List.mem_cons_self c s.workspace)).bind fun _ => rest

/-- **Whatever listeners do on a change, and however deep guests answer edits with edits.** -/
theorem keeps_audience (c : Change) : Keeps P (Desk.audience.hear c) := by
  have hearing (n : Nat) (c : Change) : Keeps P ((Desk.hearing n).hear c) := by
    induction n generalizing c with
    | zero => exact Keeps.throw _
    | succ n ih =>
        exact fun s hs => Ends.bind (Ends.get (h.keeps_tellEach ih c (h.civil hs) s hs))
  exact fun s hs => Ends.bind (Ends.get (hearing s.audience.answerLimit c s hs))

/-! ### Calls -/

theorem loads : Archive.Loads P Desk.audience where
  tell := Act.keeps_tell h.keeps_audience
  delete k := h.keeps_edit fun _ hP => hP.keeps_delete k false
  host _ host hs := h.elsewhere host hs

theorem builds (given : Value → Prop) : Snapshot.Builds P given where
  create _ _ _ _ _ := h.keeps_edit fun _ hP => hP.keeps_create _ _ _ _
  disable k := h.keeps_edit fun _ hP => hP.keeps_update k fun _ => ⟨rfl, rfl, rfl, rfl, rfl, rfl⟩
  connectValue above socket below := h.keeps_edit fun _ hP =>
    hP.keeps_connectValue above socket below
  connectNext above below := h.keeps_edit fun _ hP => hP.keeps_connectNext above below

theorem keeps_load (archive : Archive) : Keeps P (archive.load Desk.audience) := fun _ hs =>
  h.loads.ends_load (fun _ _ ht => h.edited (Workspace.edited_muted _ _) ht) archive hs fun _ _ =>
    h.builds _

/-- **Whatever is called.** -/
theorem keeps_call (c : Call) : Keeps P (c.act Desk.audience) := fun s hs =>
  c.ends_act h.loads hs
    (fun type id position fields _ =>
      h.keeps_edit fun _ hP => hP.keeps_create type id position fields)
    (fun d _ => h.keeps_edit fun _ hP => hP.keeps_command d)
    fun archive _ => h.keeps_load archive s hs

/-! ### Sessions -/

theorem keeps_start (number : Nat) : Keeps P (Session.start number) := by
  have seated : Keeps P (Act.arrange (·.seat (.session number))) := fun s hs =>
    Ends.modify (h.seated (fun g hg => h.civil hs g (by simpa using hg)) hs)
  unfold Session.start
  refine Keeps.get.bind fun _ => ?_
  split
  · exact fun _ hs => Ends.bind (Ends.throw hs)
  · refine Keeps.get.bind fun _ => ?_
    extract_lets restored
    have rest (u : PUnit) : Keeps P (restored u) := by
      unfold restored
      refine Keeps.bind (Keeps.get.bind fun _ => Keeps.pure _) fun s => ?_
      split
      · exact (h.keeps_load _).bind fun _ => (h.keeps_note _ _ _).bind fun _ => h.runs number
      · exact Keeps.pure false
    split
    · exact seated.bind rest
    · exact rest ()

theorem keeps_stop (number : Nat) : Keeps P (Session.stop number) := fun _ hs =>
  Ends.modify (h.seated (fun g hg => h.civil hs g (List.mem_of_mem_filter hg)) hs)

end Enduring

end Blockwork
