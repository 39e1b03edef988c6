import Blockwork.Proofs.Lightening
import Blockwork.Proofs.Superseding

/-!
# Colours are not lost

A block is shown in the colour of its type, or in that colour lightened, with the colour of its type
saved (`Block.PaintedBy`).  Edits change no colours and put in new blocks in the colours of their
types; a block that is highlighted once more is lightened from the colour that is saved; and
restoring a block puts back what is saved.  So it stays whatever happens at a desk
(`Scene.Painted.keeps_event`), whether newer cycles supersede older ones or not, also when cycles
fail, and also when somebody highlights and restores blocks besides
(`Scene.OpensWith.colours_kept`).
-/

namespace Blockwork

open Relation (ReflTransGen)

/-- Whether a block of a declared type is shown in the colour of its type, or in that colour
lightened while the colour of its type is saved. -/
def Block.PaintedBy (b : Block) (s : Shade) (d : Declaration) : Prop :=
  b.savedColour = .null ∧ b.colour = .text d.colour.hex ∨
  b.savedColour = .text d.colour.hex ∧
    ∃ c, s.lightenText (.text d.colour.hex) = .ok c ∧ b.colour = .text c

/-- What is saved of a block, or else its colour, is the colour of its type. -/
theorem Block.PaintedBy.ownColour_eq {b : Block} {s : Shade} {d : Declaration}
    (h : b.PaintedBy s d) : b.ownColour = .text d.colour.hex := by
  obtain ⟨hsaved, hcolour⟩ | ⟨hsaved, -⟩ := h
  · rw [ownColour, isHighlighted, hsaved]
    exact hcolour
  · rw [ownColour_eq_saved (by rw [hsaved]; exact Value.noConfusion), hsaved]

namespace Workspace

/-- Whether each block is shown in the colour of its type or highlighted. -/
def PaintedBy (w : Workspace) (s : Shade) : Prop :=
  ∀ k b, w.find? k = some b → ∃ d, w.declarationOf b = .ok d ∧ b.PaintedBy s d

variable {w : Workspace} {s : Shade}

/-- Edits change no colours. -/
theorem lasting_paintedBy (s : Shade) : Lasting fun w => w.PaintedBy s where
  changed {w} k f hf h j b hb := by
    obtain ⟨c, hc, rfl | rfl⟩ := find?_update_exists hb
    · exact h j _ hc
    · obtain ⟨d, hd, hpainted⟩ := h j c hc
      obtain ⟨-, htype, hcolour, hsaved⟩ := hf c
      refine ⟨d, ?_, ?_⟩
      · rw [declarationOf, htype]
        exact hd
      · rw [Block.PaintedBy, hcolour, hsaved]
        exact hpainted
  added {w} k b n hb h j c hc := by
    change (w.table.put k b).find? j = some c at hc
    rw [Table.find?_put] at hc
    split at hc
    · obtain rfl := Option.some.inj hc
      obtain ⟨d, hd, hcolour⟩ := hb.declared
      exact ⟨d, hd, .inl ⟨hb.saved, hcolour⟩⟩
    · exact h j c hc
  taken {w} k h j c hc := by
    change (w.table.erase k).find? j = some c at hc
    rw [Table.find?_erase] at hc
    split at hc
    · cases hc
    · exact h j c hc
  dragged _ h := h

theorem Edited.paintedBy {w' : Workspace} (h : w.Edited w') (hw : w.PaintedBy s) : w'.PaintedBy s :=
  h _ (lasting_paintedBy s) (fun _ _ h => h) hw

theorem paintedBy_new (v : Vocabulary) (n : Nat) : (Workspace.new v n).PaintedBy s :=
  fun k b hb => by
    rw [show (Workspace.new v n).find? k = none from Table.find?_eq _ _] at hb
    cases hb

/-- A change of the colours of one block. -/
theorem PaintedBy.repaint (h : w.PaintedBy s) {k : Key} {f : Block → Block}
    (htype : ∀ b, (f b).type = b.type)
    (hf : ∀ b d, w.find? k = some b → b.PaintedBy s d → (f b).PaintedBy s d) :
    PaintedBy { w with table := w.table.modify k f } s := by
  intro j b hb
  obtain ⟨hkj, c, hc, rfl⟩ | ⟨-, hb⟩ := find?_update hb
  · obtain ⟨d, hd, hpainted⟩ := h j c hc
    refine ⟨d, ?_, hf c d ((w.table.find?_congr hkj).trans hc) hpainted⟩
    rw [declarationOf, htype]
    exact hd
  · exact h j b hb

/-- Two changes of a block, one after the other, are one change. -/
theorem find?_update_twice {j k : Key} {f g : Block → Block} :
    ((w.table.modify k f).modify k g).find? j = (w.table.modify k fun b => g (f b)).find? j := by
  simp only [Table.find?_modify]
  split
  · exact Option.map_map ..
  · rfl

end Workspace

namespace Highlighter

variable {h : Highlighter} {s : Scene Trace} {id : Value}

/-- A block that is highlighted once more is lightened from the colour that is saved.  It is
highlighted then. -/
theorem ends_activate_painted (hs : h.shade.Whole) (hw : s.workspace.PaintedBy h.shade) :
    Ends (h.activate id) s (fun _ t => t.workspace.PaintedBy h.shade ∧ ∀ k b, id.toKey = .ok k →
        t.workspace.find? k = some b → b.isHighlighted = true)
      fun e t => id.toKey = .error e ∧ t = s := by
  unfold activate
  refine Ends.bind (Act.ends_ofExcept (fun k hk => Ends.bind (Ends.get ?_)) fun e he => ⟨he, rfl⟩)
  split
  · rename_i hnone
    refine Ends.pure ⟨hw, fun j b hj hb => ?_⟩
    cases hj.symm.trans hk
    cases hnone.symm.trans hb
  · rename_i b hb
    obtain ⟨d, -, hpainted⟩ := hw k b hb
    obtain ⟨c, hc⟩ := Shade.exists_lightenText hs d.colour
    have hown := hpainted.ownColour_eq
    rw [Block.ownColour] at hown
    dsimp only
    rw [hown]
    refine Ends.bind (Act.ends_edit (Ends.modify (Ends.bind (Act.ends_ofExcept_ok hc ?_))))
    refine Ends.bind (Act.ends_edit (Ends.modify (Ends.bind (ends_announce fun s' hw' _ _ => ?_))))
    refine Ends.pure ⟨fun j b' hb' => ?_, fun j b' hj hb' => ?_⟩
    · rw [hw'] at hb' ⊢
      refine hw.repaint (k := k) (f := fun b => { b with savedColour := _, colour := .text c })
        (fun _ => rfl) (fun b' d' hb' hpainted' => .inr ⟨?_, c, ?_, rfl⟩) j b'
        (Workspace.find?_update_twice.symm.trans hb')
      all_goals
        obtain rfl := Option.some.inj (hb.symm.trans hb')
        have hsame := hpainted.ownColour_eq.symm.trans hpainted'.ownColour_eq
      · exact hsame
      · exact hsame ▸ hc
    · cases hj.symm.trans hk
      rw [hw'] at hb'
      have hfound := (Workspace.find?_update_twice (w := s.workspace) (j := k)).symm.trans hb'
      rw [Table.find?_modify, if_pos BEq.rfl, show s.workspace.table.find? k = some b from hb] at hfound
      obtain rfl := Option.some.inj hfound
      rfl

/-- A block that is restored is shown in the colour that was saved. -/
theorem ends_restore_painted (hw : s.workspace.PaintedBy h.shade) :
    Ends (h.restore id) s (fun _ t => t.workspace.PaintedBy h.shade)
      fun e t => id.toKey = .error e ∧ t = s := by
  unfold restore
  refine Ends.bind (Act.ends_ofExcept (fun k _ => Ends.bind (Ends.get ?_)) fun e he => ⟨he, rfl⟩)
  split
  · exact Ends.pure hw
  · rename_i b hb
    obtain ⟨hb, hlit⟩ := Option.filter_eq_some_iff.mp hb
    refine Ends.bind (Act.ends_edit (Ends.modify (Ends.bind (ends_announce fun s' hw' _ _ => ?_))))
    refine Ends.pure ?_
    rw [hw']
    refine hw.repaint (fun _ => rfl) fun b' d hb' hpainted => .inl ⟨rfl, ?_⟩
    obtain rfl := Option.some.inj (hb.symm.trans hb')
    exact (Block.ownColour_eq_saved (by simpa [Block.isHighlighted] using hlit)).symm.trans
      hpainted.ownColour_eq

theorem keeping_paintedBy (hs : h.shade.Whole) : h.Keeping fun w => w.PaintedBy h.shade where
  activate _ _ hw := (ends_activate_painted hs hw).mono (fun _ _ ht => ht.1)
    fun _ _ ht => ht.2 ▸ hw
  restore _ _ hw := (ends_restore_painted hw).mono (fun _ _ ht => ht) fun _ _ ht => ht.2 ▸ hw

end Highlighter

/-! ### At a desk -/

/-- Whether all sessions at a desk highlight blocks in the same way, and each block is shown in the
colour of its type or highlighted. -/
structure Scene.Painted (h : Highlighter) (s : Scene Desk) : Prop where
  blocks : s.workspace.PaintedBy h.shade
  alike : ∀ q ∈ s.audience.sessions, q.highlighter = h
  civil : ∀ g, .guest g ∈ s.audience.listeners → g.Civil

/-- What holds of all sessions, and is not changed in one of them, holds of all. -/
theorem Desk.forall_updateSession {d : Desk} {P : Session → Prop} (h : ∀ q ∈ d.sessions, P q)
    (number : Nat) {f : Session → Session} (hf : ∀ q, P q → P (f q)) :
    ∀ q ∈ (d.updateSession number f).sessions, P q := by
  intro q hq
  obtain ⟨i, hi⟩ := List.getElem?_of_mem hq
  change (d.sessions.modify number f)[i]? = some q at hi
  rw [List.getElem?_modify] at hi
  obtain ⟨q', hq', hqq⟩ := Option.map_eq_some_iff.mp hi
  have hmem := h q' (List.mem_of_getElem? hq')
  split at hqq
  · exact hqq ▸ hf q' hmem
  · exact hqq ▸ hmem

namespace Scene.Painted

variable {h : Highlighter} {s : Scene Desk}

theorem update (hs : s.Painted h) (number : Nat) {f : Session → Session}
    (hf : ∀ q, (f q).highlighter = q.highlighter) :
    ({ s with audience := s.audience.updateSession number f } : Scene Desk).Painted h :=
  ⟨hs.blocks, Desk.forall_updateSession hs.alike number fun q hq => (hf q).trans hq, hs.civil⟩

theorem elsewhere (hs : s.Painted h) (host : Host) : ({ s with host } : Scene Desk).Painted h :=
  ⟨hs.blocks, hs.alike, hs.civil⟩

/-- A part of a run that keeps the blocks in their colours. -/
theorem keeps_traced (number : Nat) {α : Type} {r : Run α}
    (hr : Keeps (fun s : Scene Trace => s.workspace.PaintedBy h.shade) r) :
    Keeps (Painted h) (Act.traced number r) := by
  intro s hs
  have back {t : Scene Trace} (ht : t.workspace.PaintedBy h.shade) : Painted h
      { t with audience := s.audience.withTrace number t.audience } :=
    ⟨ht, Desk.forall_updateSession hs.alike number fun _ hq => hq, hs.civil⟩
  have hends := hr { s with audience := s.audience.trace number } hs.blocks
  unfold Ends Act.traced at *
  cases hx : r { s with audience := s.audience.trace number } with
  | ok a t => rw [hx] at hends; exact back hends
  | error e t => rw [hx] at hends; exact back hends

/-- What is done with a session goes by the one highlighter. -/
theorem ends_session? (hs : s.Painted h) (number : Nat) :
    Ends (Act.session? number) s (fun q t => t.Painted h ∧ ∀ q' ∈ q, q'.highlighter = h)
      fun _ _ => False :=
  Ends.bind (Ends.get (Ends.pure ⟨hs, fun _ hq => hs.alike _ (List.mem_of_getElem? hq)⟩))

variable (hw : h.shade.Whole)

include hw

theorem keeps_runCode (number : Nat) : Keeps (Painted h) (Session.runCode number) := by
  intro s hs
  unfold Session.runCode
  refine Ends.bind (Ends.get ?_)
  split
  · exact Ends.bind (Ends.throw hs)
  · refine Ends.bind ((hs.ends_session? number).mono (fun q t ht => ?_) fun _ _ he => he.elim)
    obtain ⟨ht, hq⟩ := ht
    split
    · rename_i q
      obtain rfl := hq q rfl
      refine Ends.bind (Ends.modify (Ends.skip (P := Painted q.highlighter) (fun _ => ?_)
        (fun _ => ?_) fun u hu => ?_))
      · exact keeps_traced number (Highlighter.keeping_paintedBy hw).restoreAll _
          (ht.update number fun _ => rfl)
      · exact ht.update number fun _ => rfl
      · refine Ends.bind (Ends.get ?_)
        split
        · exact Ends.bind (Ends.modify (Ends.pure ⟨hu.blocks,
            Desk.forall_updateSession hu.alike number fun _ hq => hq, hu.civil⟩))
        · split
          · exact Ends.bind (Ends.modify (Ends.pure (hu.elsewhere _)))
          · exact Ends.throw hu
    · exact Ends.pure ht

/-- **Blocks stay in their colours whatever listeners and calls do.** -/
theorem enduring : Enduring (Painted h) where
  edited hw' hs := ⟨hw'.paintedBy hs.blocks, hs.alike, hs.civil⟩
  elsewhere host hs := hs.elsewhere host
  noted _ hs := ⟨hs.blocks, hs.alike, hs.civil⟩
  seated hl hs := ⟨hs.blocks, hs.alike, hl⟩
  civil hs := hs.civil
  runs := keeps_runCode hw

theorem keeps_fail (c : Cycle) (e : Error) : Keeps (Painted h) (Session.fail c e) := by
  intro s hs
  unfold Session.fail Session.noteError
  refine Ends.bind (Ends.modify (Ends.bind (Ends.modify (Ends.bind ?_))))
  have hfault := hs.update c.session (f := ({ · with fault := some e })) fun _ => rfl
  refine ((hfault.elsewhere _).ends_session? c.session).mono (fun q t ht => ?_)
    fun _ _ he => he.elim
  obtain ⟨ht, hq⟩ := ht
  split
  · rename_i q
    obtain rfl := hq q rfl
    split
    · refine Ends.bind (Act.keeps_attempt (keeps_traced c.session
        (Highlighter.keeping_paintedBy hw).restoreAll) t ht |>.mono (fun r u hu => ?_)
        fun _ _ hu => hu)
      split
      · exact Ends.pure hu
      · exact Ends.modify (hu.update c.session fun _ => rfl)
    · exact Ends.pure ht
  · exact Ends.pure ht

theorem keeps_resume (c : Cycle) : Keeps (Painted h) (Session.resume c) := by
  intro s hs
  unfold Session.resume
  refine Ends.bind ((hs.ends_session? c.session).mono (fun q t ht => ?_) fun _ _ he => he.elim)
  obtain ⟨ht, hq⟩ := ht
  split
  · rename_i q
    obtain rfl := hq q rfl
    have proceeded : Keeps (fun s : Scene Trace => s.workspace.PaintedBy q.highlighter.shade)
        (Session.proceed q c) := by
      unfold Session.proceed
      split
      · exact Keeps.throw _
      · refine keeps_advance (P := fun w => w.PaintedBy q.highlighter.shade) (fun h' hh => ?_) _ _
        obtain rfl := Option.some.inj hh
        exact Highlighter.keeping_paintedBy hw
    refine Ends.bind (Act.keeps_attempt (keeps_traced c.session proceeded) t ht |>.mono
      (fun r u hu => ?_) fun _ _ hu => hu)
    split
    · exact Ends.modify (hu.update c.session fun _ => rfl)
    · exact Ends.modify ⟨hu.blocks, hu.alike, hu.civil⟩
    · exact Ends.modify ⟨hu.blocks, hu.alike, hu.civil⟩
    · exact Ends.pure hu
    · exact keeps_fail hw c _ u hu
  · exact Ends.pure ht

theorem keeps_turn : Keeps (Painted h) Session.turn := by
  intro s hs
  unfold Session.turn
  refine Ends.bind (Ends.get ?_)
  split
  · exact Ends.pure hs
  · exact Ends.bind (Ends.modify (keeps_resume hw _ _ ⟨hs.blocks, hs.alike, hs.civil⟩))

theorem keeps_event (e : Session.Event) : Keeps (Painted h) e.act := by
  cases e with
  | start => exact ((enduring hw).keeps_start 0).bind fun _ => Keeps.pure ()
  | stop => exact (enduring hw).keeps_stop 0
  | run => exact (keeps_runCode hw 0).bind fun _ => Keeps.pure ()
  | call c => exact (enduring hw).keeps_call c
  | turn => exact keeps_turn hw
  | wake place broken => exact fun s hs => Ends.modify ⟨hs.blocks, hs.alike, hs.civil⟩
  | pace pacing => exact fun s hs => Ends.modify (hs.update 0 fun _ => rfl)

end Scene.Painted

namespace Session

/-- Something that can happen at a desk where somebody highlights and restores blocks besides. -/
inductive Handling where
  | event (e : Event)
  | activate (id : Value)
  | restore (id : Value)
  | restoreAll

/-- What is done then, by a highlighter. -/
def Handling.act (h : Highlighter) : Handling → Act Desk Unit
  | .event e => e.act
  | .activate id => do let _ ← Act.traced 0 (h.activate id)
  | .restore id => do let _ ← Act.traced 0 (h.restore id)
  | .restoreAll => do let _ ← Act.traced 0 h.restoreAll

end Session

namespace Scene

variable {h : Highlighter} {s t : Scene Desk}

/-- Whether a desk is set up around an empty workspace, with sessions that highlight blocks in the
same way. -/
structure OpensWith (h : Highlighter) (s : Scene Desk) : Prop where
  workspace : ∃ v created, s.workspace = Workspace.new v created
  alike : ∀ q ∈ s.audience.sessions, q.highlighter = h
  civil : ∀ g, .guest g ∈ s.audience.listeners → g.Civil

/-- Whether a scene comes of another one by what happens at the desk and by highlighting and
restoring blocks, one thing after the other. -/
def Handled (h : Highlighter) : Scene Desk → Scene Desk → Prop :=
  ReflTransGen fun s t => ∃ e : Session.Handling, t = stateAfter (e.act h) s

theorem Painted.keeps_handling (hw : h.shade.Whole) (e : Session.Handling) :
    Keeps (Painted h) (e.act h) := by
  have keeping := Highlighter.keeping_paintedBy hw
  cases e with
  | event e => exact keeps_event hw e
  | activate id => exact (keeps_traced 0 (keeping.activate id)).bind fun _ => Keeps.pure ()
  | restore id => exact (keeps_traced 0 (keeping.restore id)).bind fun _ => Keeps.pure ()
  | restoreAll => exact (keeps_traced 0 keeping.restoreAll).bind fun _ => Keeps.pure ()

theorem Handled.painted (hw : h.shade.Whole) (hs : s.Painted h) (ht : Handled h s t) :
    t.Painted h := by
  induction ht with
  | refl => exact hs
  | tail _ he ih =>
      obtain ⟨e, rfl⟩ := he
      exact (Painted.keeps_handling hw e).stateAfter ih

/-- **The colour of a type is never lost.**  Whatever happens, each block is shown in the colour of
its type with nothing saved, or in that colour lightened with the colour of its type saved. -/
theorem OpensWith.colours_kept (hs : s.OpensWith h) (hw : h.shade.Whole) (ht : Handled h s t) :
    ∀ k b, t.workspace.find? k = some b →
      ∃ d, t.workspace.declarationOf b = .ok d ∧ b.PaintedBy h.shade d := by
  obtain ⟨v, n, hnew⟩ := hs.workspace
  exact (ht.painted hw ⟨hnew ▸ Workspace.paintedBy_new v n, hs.alike, hs.civil⟩).blocks

/-- A block that somebody highlights is lightened, and the colour of its type is saved. -/
theorem colours_kept_greeter : ∃ s t : Scene Desk, s.OpensWith Session.greeting.highlighter ∧
    Session.greeting.highlighter.shade.Whole ∧ Handled Session.greeting.highlighter s t ∧
      ∃ b, t.workspace.find? (.text "hi") = some b ∧ b.isHighlighted = true ∧
        ∃ d, t.workspace.declarationOf b = .ok d ∧
          b.PaintedBy Session.greeting.highlighter.shade d := by
  let h := Session.greeting.highlighter
  have hs : hall.OpensWith h :=
    ⟨⟨_, _, rfl⟩, fun q hq => by rw [List.mem_singleton.mp hq], fun _ h => nomatch h⟩
  have hw : h.shade.Whole := fun _ => ⟨40, rfl⟩
  let lit : Session.Handling := .activate (.text "hi")
  let P (t : Scene Desk) :=
    ∃ b, t.workspace.find? (.text "hi") = some b ∧ b.isHighlighted = true
  obtain ⟨c, hc⟩ := Shade.exists_lightenText hw Vocabulary.wait.colour
  have hlit : Ends (lit.act h) (stateAfter creation.act hall) (fun _ t => P t) fun _ t => P t := by
    refine Ends.bind (shows_creation.ends_traced fun s' hw' _ => ?_)
    refine (Highlighter.ends_activate_found rfl (b := greeter)
      (hw' ▸ (after_creation rfl rfl).1.block?_self) rfl (fun h => nomatch h) hc).mono
      (fun _ t ht u hu _ => Ends.pure ?_) fun _ _ he => he.elim
    change ∃ b, u.workspace.find? (.text "hi") = some b ∧ b.isHighlighted = true
    rw [hu.workspace]
    exact ht.1
  obtain ⟨b, hb, hhigh⟩ := hlit.stateAfter (P := P)
  have hhandled : Handled h hall (stateAfter (lit.act h) (stateAfter creation.act hall)) :=
    .tail (.single ⟨.event creation, rfl⟩) ⟨lit, rfl⟩
  exact ⟨_, _, hs, hw, hhandled, b, hb, hhigh, hs.colours_kept hw hhandled _ b hb⟩

end Scene

end Blockwork
