import Blockwork.Proofs.Removing

/-!
# Drags

Nothing but a gesture begins or ends a drag: every other call on a workspace, loading and deleting
included, leaves it as it is, and whatever is told meanwhile is told as during that drag
(`History.drag_lasts`).  A drag is ended by its block, which has to be there (`Edit.ends_endDrag_of`).
So the drag of a block that is deleted meanwhile is not ended with it, and no change that is told
from then on warrants a cycle, until another gesture ends it (`History.drag_outlasts`).
-/

namespace Blockwork

open Relation (ReflTransGen)

/-- Whether a command is part of a drag gesture. -/
def Command.isGesture : Command → Bool
  | .beginDrag _ | .endDrag _ => true
  | _ => false

/-- Whether a call is part of a drag gesture. -/
def Call.isGesture : Call → Bool
  | .command c => c.isGesture
  | _ => false

/-! ### Edits -/

namespace Workspace

variable {w w' : Workspace} {p c x : String} {xs : List String}

theorem retabled_release (w : Workspace) (p : String) (s : Slot) : w.Retabled (w.release p s) := by
  unfold release
  split
  · rfl
  · exact retabled_cut ..

theorem retabled_plug (w : Workspace) (p : String) (s : Slot) (c : String) :
    w.Retabled (w.plug p s c) := by
  unfold plug
  split
  · rfl
  · exact ((retabled_release ..).trans (retabled_cut ..)).trans (retabled_bind ..)

theorem Follows.retabled (h : w.Follows p c w') : w.Retabled w' := by
  have hsplice : w.Retabled (w.splice p c) :=
    ((retabled_cut ..).trans (retabled_release ..)).trans (retabled_bind ..)
  cases h with
  | already => rfl
  | alone => exact hsplice
  | before => exact hsplice.trans (retabled_bind ..)

theorem Deleted.retabled {heal : Bool} (h : w.Deleted x heal xs w') : w.Retabled w' := by
  cases h with
  | whole => exact (retabled_cut ..).trans (retabled_discard ..)
  | healed =>
      exact (((retabled_cut ..).trans (retabled_cut ..)).trans (retabled_discard ..)).trans
        (retabled_bind ..)
  | raised =>
      exact (((retabled_cut ..).trans (retabled_cut ..)).trans (retabled_discard ..)).trans
        (retabled_edit ..)

/-- A command that is no part of a gesture changes the blocks only. -/
theorem Sound.retabled_command (h : w.Sound) {c : Command} (hc : c.isGesture = false) :
    Ends c.edit w (fun _ w' => w.Retabled w') fun _ w' => w.Retabled w' := by
  have same : w.Retabled w := rfl
  cases c with
  | setField id name value =>
      exact Edit.ends_setField h (fun _ => same) same fun _ _ _ _ _ _ _ _ _ _ _ => rfl
  | setEnabled id enabled => exact Edit.ends_setEnabled h (fun _ => same) same fun _ _ _ => rfl
  | move id x y => exact Edit.ends_move h (fun _ => same) fun _ _ _ _ _ => rfl
  | connectValue above socket below =>
      exact Edit.ends_connectValue h (fun _ _ => same) fun _ _ _ _ _ _ _ _ => retabled_plug ..
  | connectNext above below =>
      exact Edit.ends_connectNext h (fun _ _ => same) fun _ _ _ _ _ _ _ hf => hf.retabled
  | disconnect id => exact Edit.ends_disconnect h (fun _ _ => same) fun _ _ _ => retabled_cut ..
  | delete id heal => exact Edit.ends_delete h (fun _ _ => same) fun _ _ _ _ hd => hd.retabled
  | beginDrag id => cases hc
  | endDrag id => cases hc

theorem Deleted.block?_self {heal : Bool} (h : w.Deleted x heal xs w') : w'.block? x = none := by
  have hgone {u v : Workspace} (hxs : u.Branch x xs) : (v.discard xs).block? x = none := by
    rw [block?_discard, if_pos ((hxs.2 x).mpr .refl)]
  cases h with
  | whole _ hxs => exact hgone hxs
  | healed _ _ _ hxs => exact (sameCore_bind ..).block?_eq_none.mpr (hgone hxs)
  | raised _ _ _ _ hxs =>
      rw [← Option.not_isSome_iff_eq_none, isSome_block?_edit, hgone hxs]
      exact Bool.false_ne_true

/-- A block that is deleted is not there any more. -/
theorem Sound.ends_delete_gone (h : w.Sound) {k : Key} (heal : Bool) :
    Ends (Edit.delete k heal) w (fun _ w' => w'.find? k = none) fun _ w' => w'.find? k = none := by
  refine Edit.ends_delete h (fun _ hnone => hnone) fun x xs w' hk hd => ?_
  subst hk
  exact hd.block?_self

end Workspace

/-- A drag is ended by its block, if that is there. -/
theorem Edit.ends_endDrag_of (k : Key) (w : Workspace) :
    Ends (endDrag k) w (fun _ w' => (w.find? k).isSome = true ∧ w' = { w with dragging := false })
      fun _ w' => w.find? k = none ∧ w' = w := by
  unfold endDrag
  cases hk : w.find? k with
  | none =>
      refine Ends.bind (ends_require (fun b hb => ?_) fun _ => ⟨rfl, rfl⟩)
      exact nomatch hk.symm.trans hb
  | some b =>
      refine Ends.bind (ends_require (fun _ _ => ?_) fun hnone => nomatch hk.symm.trans hnone)
      exact Ends.bind (Ends.modify (Ends.pure ⟨rfl, rfl⟩))

/-! ### Calls -/

namespace Scene

variable {w : Workspace} {told : List Change} {s t : Scene (List Change)}

/-- Whether a workspace has been edited by no gesture, and every change that was told meanwhile was
told as during the drag that there was, if there was one. -/
structure Undragged (w : Workspace) (told : List Change) (s : Scene (List Change)) : Prop where
  later : w.Later s.workspace
  dragging : s.workspace.dragging = w.dragging
  told : ∃ cs, s.audience = told ++ cs ∧ ∀ c ∈ cs, c.duringDrag = w.dragging

theorem Undragged.refl (h : s.workspace.Sound) : Undragged s.workspace s.audience s :=
  ⟨h.later, rfl, [], (List.append_nil _).symm, List.forall_mem_nil _⟩

theorem Undragged.trans (h : Undragged w told s) (k : Undragged s.workspace s.audience t) :
    Undragged w told t := by
  obtain ⟨cs, hcs, hduring⟩ := h.told
  obtain ⟨ds, hds, hduring'⟩ := k.told
  refine ⟨h.later.trans k.later, k.dragging.trans h.dragging, cs ++ ds, ?_, fun c hc => ?_⟩
  · rw [hds, hcs, List.append_assoc]
  · rcases List.mem_append.mp hc with hc | hc
    · exact hduring c hc
    · exact (hduring' c hc).trans h.dragging

theorem keeps_undragged_tell (n : Notice) : Keeps (Undragged w told) (Act.tell .journal n) := by
  intro s hs
  refine Ends.bind (Ends.get ?_)
  dsimp only
  split
  · obtain ⟨cs, hcs, hduring⟩ := hs.told
    refine Ends.bind (Ends.modify
      (Ends.pure ⟨hs.later, hs.dragging, cs ++ [Act.changeOf s.workspace n], ?_, ?_⟩))
    · exact (congrArg (· ++ _) hcs).trans (List.append_assoc ..)
    · intro c hc
      rcases List.mem_append.mp hc with hc | hc
      · exact hduring c hc
      · obtain rfl := List.mem_singleton.mp hc
        exact hs.dragging
  · exact Ends.pure hs

theorem keeps_undragged_edit {α : Type} {e : Edit α}
    (he : ∀ u, w.Later u → Ends e u (fun _ u' => u.Later u' ∧ u'.dragging = u.dragging)
      fun _ u' => u.Later u' ∧ u'.dragging = u.dragging) :
    Keeps (Undragged w told) (Act.edit e) := fun _ hs =>
  Act.ends_edit ((he _ hs.later).mono
    (fun _ _ hu => ⟨hs.later.trans hu.1, hu.2.trans hs.dragging, hs.told⟩)
    fun _ _ hu => ⟨hs.later.trans hu.1, hu.2.trans hs.dragging, hs.told⟩)

theorem keeps_undragged_command {c : Command} (hc : c.isGesture = false) :
    Keeps (Undragged w told) (Act.edit c.edit) :=
  keeps_undragged_edit fun _ hu =>
    ((hu.sound.command c).and (hu.sound.retabled_command hc)).mono
      (fun _ _ h => ⟨h.1, h.2.dragging⟩) fun _ _ h => ⟨h.1, h.2.dragging⟩

theorem Undragged.muted (h : Undragged w told s) (muted : Nat) :
    Undragged w told { s with workspace := { s.workspace with muted } } :=
  ⟨h.later.trans ⟨h.later.sound.gesture _ muted, rfl, Nat.le_refl _, fun hm => hm⟩, h.dragging,
    h.told⟩

theorem loads_undragged : Archive.Loads (Undragged w told) .journal where
  tell := keeps_undragged_tell
  delete k := keeps_undragged_command (c := .delete k false) rfl
  host _ _ hs := ⟨hs.later, hs.dragging, hs.told⟩

theorem builds_undragged (hm : w.Minted) {given : Value → Prop}
    (hg : ∀ id, given id → w.Admits id) : Snapshot.Builds (Undragged w told) given where
  create type id position fields hid := keeps_undragged_edit fun u hu => by
    have hadmits := Workspace.Admits.mono (hg id hid) hu.created
    exact Edit.ends_create hadmits.isId (fun _ _ => ⟨hu.sound.later, rfl⟩)
      fun _ _ _ hc => ⟨hu.sound.later_insert (hu.minted hm) hadmits hc, rfl⟩
  disable k := keeps_undragged_edit fun u hu =>
    Ends.modify ⟨hu.sound.stroke (hu.minted hm) (.disable k), rfl⟩
  connectValue above socket below :=
    keeps_undragged_command (c := .connectValue above socket below) rfl
  connectNext above below := keeps_undragged_command (c := .connectNext above below) rfl

/-- A call that is no part of a gesture leaves a drag as it is. -/
theorem undragged_call (hs : s.workspace.Sound) (hm : s.workspace.Minted) {c : Call}
    (hc : c.Admissible s) (hg : c.isGesture = false) :
    Undragged s.workspace s.audience (c.after .journal s) := by
  have ends : Ends (c.act .journal) s (fun _ t => Undragged s.workspace s.audience t)
      fun _ t => Undragged s.workspace s.audience t := by
    refine c.ends_act loads_undragged (.refl hs) ?create ?command ?load
    case create =>
      rintro type id position fields rfl
      exact (builds_undragged hm fun _ h => h).create type id position fields hc
    case command =>
      rintro d rfl
      exact keeps_undragged_command hg
    case load =>
      rintro archive rfl
      exact loads_undragged.ends_load (fun _ muted h => h.muted muted) archive (.refl hs)
        fun text ht => builds_undragged hm (hc text ht)
  exact ends.stateAfter (P := Undragged s.workspace s.audience)

/-- Whether a scene comes of another one by calls that are no part of gestures. -/
def Calls : Scene (List Change) → Scene (List Change) → Prop :=
  ReflTransGen fun s t => ∃ c : Call, c.Admissible s ∧ c.isGesture = false ∧ t = c.after .journal s

/-- What is called while a block is dragged leaves the drag as it is. -/
theorem Calls.undragged (h : Calls s t) (hs : s.workspace.Sound) (hm : s.workspace.Minted) :
    Undragged s.workspace s.audience t := by
  induction h with
  | refl => exact .refl hs
  | tail _ hc ih =>
      obtain ⟨c, hadmissible, hgesture, rfl⟩ := hc
      exact ih.trans (undragged_call ih.later.sound (ih.later.minted hm) hadmissible hgesture)

end Scene

/-! ### Histories -/

namespace History

variable {v : Vocabulary} {s t u : Scene (List Change)}

/-- **Nothing but a gesture begins or ends a drag**, and what is told meanwhile is told as during
that drag. -/
theorem drag_lasts (hv : v.Worded) (h : History .journal v s.workspace) (hc : Scene.Calls s t) :
    t.workspace.dragging = s.workspace.dragging ∧ ∃ cs, t.audience = s.audience ++ cs ∧
      ∀ c ∈ cs, c.duringDrag = s.workspace.dragging := by
  obtain ⟨hsound, hminted⟩ := h.grounded Audience.tame_journal hv
  have hundragged := hc.undragged hsound hminted
  exact ⟨hundragged.dragging, hundragged.told⟩

theorem dragging_beginDrag {k : Key} (hk : (s.workspace.find? k).isSome = true) :
    ((Call.command (.beginDrag k)).after .journal s).workspace.dragging = true := by
  rw [Call.workspace_after_command Audience.aloof_journal]
  have hends : Ends (Edit.beginDrag k) s.workspace (fun _ w => w.dragging = true)
      fun _ w => w.dragging = true := by
    refine Ends.bind (Edit.ends_require (fun b _ => ?_) fun hnone => ?_)
    · exact Ends.bind (Ends.modify (Ends.pure rfl))
    · rw [hnone] at hk
      cases hk
  exact hends.stateAfter (P := fun w : Workspace => w.dragging = true)

theorem endDrag_of_isSome {k : Key} (hk : (t.workspace.find? k).isSome = true) :
    ((Call.command (.endDrag k)).after .journal t).workspace.dragging = false := by
  rw [Call.workspace_after_command Audience.aloof_journal]
  refine Ends.stateAfter (P := fun w => w.dragging = false) ((Edit.ends_endDrag_of k _).mono
    (fun _ _ h => h.2 ▸ rfl) fun _ _ h => ?_)
  rw [h.1] at hk
  cases hk

theorem endDrag_of_none {k : Key} (hk : t.workspace.find? k = none) :
    ((Call.command (.endDrag k)).after .journal t).workspace = t.workspace := by
  rw [Call.workspace_after_command Audience.aloof_journal]
  refine Ends.stateAfter (P := (· = t.workspace)) ((Edit.ends_endDrag_of k _).mono
    (fun _ _ h => ?_) fun _ _ h => h.2)
  rw [hk] at h
  cases h.1

/-- **A drag is ended just where its block is still there**, whatever was called meanwhile. -/
theorem drag_ends_iff (hv : v.Worded) (h : History .journal v s.workspace) {k : Key}
    (hk : (s.workspace.find? k).isSome = true)
    (hc : Scene.Calls ((Call.command (.beginDrag k)).after .journal s) t) :
    ((Call.command (.endDrag k)).after .journal t).workspace.dragging = false ↔
      (t.workspace.find? k).isSome = true := by
  have hlast := (drag_lasts hv (.call (c := .command (.beginDrag k)) h trivial) hc).1
  have hdragged := hlast.trans (dragging_beginDrag hk)
  cases ht : t.workspace.find? k with
  | some b => exact iff_of_true (endDrag_of_isSome (by rw [ht]; rfl)) rfl
  | none =>
      rw [endDrag_of_none ht, hdragged]
      exact iff_of_false Bool.noConfusion Bool.noConfusion

/-- **The drag of a block that is deleted outlasts the gesture**: no change that is told after it
warrants a cycle, until another gesture ends the drag. -/
theorem drag_outlasts (hv : v.Worded) (h : History .journal v s.workspace)
    (hd : s.workspace.dragging = true) {k : Key} {heal : Bool}
    (ht : t = (Call.command (.endDrag k)).after .journal
      ((Call.command (.delete k heal)).after .journal s)) (hc : Scene.Calls t u) :
    u.workspace.dragging = true ∧ ∃ cs, u.audience = t.audience ++ cs ∧
      ∀ c ∈ cs, c.warrantsCycle = false := by
  subst ht
  obtain ⟨hsound, hminted⟩ := h.grounded Audience.tame_journal hv
  have hdeleted := Scene.undragged_call (c := .command (.delete k heal)) hsound hminted trivial rfl
  have hgone : ((Call.command (.delete k heal)).after .journal s).workspace.find? k = none := by
    rw [Call.workspace_after_command Audience.aloof_journal]
    exact (hsound.ends_delete_gone heal).stateAfter (P := fun w : Workspace => w.find? k = none)
  have hkept := endDrag_of_none hgone
  have hdragging := (congrArg Workspace.dragging hkept).trans (hdeleted.dragging.trans hd)
  obtain ⟨hlast, cs, hcs, hduring⟩ := drag_lasts hv
    (.call (c := .command (.endDrag k)) (.call (c := .command (.delete k heal)) h trivial) trivial) hc
  refine ⟨hlast.trans hdragging, cs, hcs, fun c hmem => ?_⟩
  rw [Change.warrantsCycle, hduring c hmem, hdragging, Bool.not_true, Bool.and_false]

end History

end Blockwork
