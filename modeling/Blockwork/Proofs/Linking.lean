import Blockwork.Proofs.Outcome
import Blockwork.Proofs.Walks

/-!
# Edits of links

What `Edit.unplug`, `Edit.connectValue` and `Edit.connectNext` do to a sound workspace.  A block is
connected just when the slot takes it and it would not hang from itself (`Workspace.Connects`); an
edit that is refused has changed nothing.  Otherwise what comes of it is put together from links cut
and links made (`Workspace.plug`, `Workspace.Follows`), and each of the links made is one that a
sound workspace can have (`Sound.plug`, `Sound.follows`).
-/

namespace Blockwork

open Forest (Rooted Hangs Lineage)

namespace Workspace

variable {w : Workspace} {p c : String} {s : Slot}

/-! ### What is connected -/

/-- Whether a block may be put into a slot: it is of a type that the slot takes, and the other block
does not hang from it. -/
def Connects (w : Workspace) (p : String) (s : Slot) (c : String) : Prop :=
  w.Suits p s c ∧ ¬ Hangs w.above? p c

/-- The workspace with the block in a slot, if there is one, taken out. -/
def release (w : Workspace) (p : String) (s : Slot) : Workspace :=
  match w.child? p s with
  | none => w
  | some d => w.cut d

/-- The workspace with a block plugged into a slot, where what was in the slot is taken out. -/
def plug (w : Workspace) (p : String) (s : Slot) (c : String) : Workspace :=
  if w.child? p s = some c then w else ((w.release p s).cut c).bind p s c

/-- The workspace with a block behind another one, where what was there is taken out. -/
def splice (w : Workspace) (p c : String) : Workspace :=
  ((w.cut c).release p none).bind p none c

/-- Whether a block is the last one of the chain from another block on. -/
def Trails (w : Workspace) (x t : String) : Prop :=
  ∃ l, Lineage w.next? x l ∧ l.getLast? = some t

/-- What comes of letting a block follow another one.  What followed that one follows the last block
of what was put before it, if that can be followed, and hangs nowhere otherwise. -/
inductive Follows (w : Workspace) (p c : String) : Workspace → Prop where
  | already : w.child? p none = some c → Follows w p c w
  | alone : w.child? p none ≠ some c →
      (∀ d, (w.cut c).child? p none = some d → ∃ t e, (w.splice p c).Trails c t ∧
        (w.splice p c).type? t = some e ∧ e.next = false) →
      Follows w p c (w.splice p c)
  | before {d t : String} {e : Declaration} : w.child? p none ≠ some c →
      (w.cut c).child? p none = some d → (w.splice p c).Trails c t →
      (w.splice p c).type? t = some e → e.next = true →
      Follows w p c ((w.splice p c).bind t none d)

/-! ### The ends of chains -/

theorem Trails.child?_none {x t : String} (h : w.Trails x t) : w.child? t none = none := by
  obtain ⟨l, hl, ht⟩ := h
  obtain ⟨y, hy, hend⟩ := hl.exists_getLast
  obtain rfl := Option.some.inj (ht.symm.trans hy)
  exact hend

theorem Sound.hangs_of_trails (h : w.Sound) {x t : String} (ht : w.Trails x t) :
    Hangs w.above? t x := by
  obtain ⟨l, hl, ht⟩ := ht
  exact (hl.mem_iff.mp (List.mem_of_getLast? ht)).reverse fun _ _ => h.above?_of_child?

/-! ### Slots that were released -/

theorem child?_release (h : w.Linked) (p q : String) (s t : Slot) :
    (w.release p s).child? q t = if p = q ∧ s = t then none else w.child? q t := by
  unfold release
  split
  · rename_i hn
    split
    · rename_i e
      obtain ⟨rfl, rfl⟩ := e
      exact hn
    · rfl
  · rename_i d hd
    rw [child?_cut h]
    have : w.child? q t = some d ↔ p = q ∧ s = t := by
      constructor
      · exact h.unique hd
      · rintro ⟨rfl, rfl⟩
        exact hd
    simp only [this]

theorem sameCore_release (w : Workspace) (p : String) (s : Slot) : SameCore w (w.release p s) := by
  unfold release
  split
  · exact ⟨rfl, rfl, fun _ => rfl⟩
  · exact sameCore_cut w _

theorem SameCore.trans {w' w'' : Workspace} (h : SameCore w w') (k : SameCore w' w'') :
    SameCore w w'' :=
  ⟨k.vocabulary.trans h.vocabulary, k.created.trans h.created, fun x => (k.core? x).trans (h.core? x)⟩

theorem hangs_of_hangs_release {x y : String} (h : Hangs (w.release p s).above? x y) :
    Hangs w.above? x y := by
  unfold release at h
  split at h
  · exact h
  · exact hangs_of_hangs_cut h

/-- A block that hangs nowhere still does when a slot is released. -/
theorem seat?_release_of_none (hc : w.seat? c = none) : (w.release p s).seat? c = none := by
  unfold release
  split
  · exact hc
  · rw [seat?_cut, hc]
    split <;> rfl

theorem Sound.release (h : w.Sound) (p : String) (s : Slot) : (w.release p s).Sound := by
  unfold Workspace.release
  split
  · exact h
  · exact h.cut _

/-! ### Sound workspaces stay sound -/

theorem sameCore_plug (w : Workspace) (p : String) (s : Slot) (c : String) :
    SameCore w (w.plug p s c) := by
  unfold plug
  split
  · exact ⟨rfl, rfl, fun _ => rfl⟩
  · exact ((sameCore_release w p s).trans (sameCore_cut _ c)).trans (sameCore_bind ..)

theorem Sound.plug (h : w.Sound) (hc : w.Connects p s c) : (w.plug p s c).Sound := by
  unfold Workspace.plug
  split
  · exact h
  · have hr := h.release p s
    have same := (sameCore_release w p s).trans (sameCore_cut _ c)
    refine (hr.cut c).bind ?_ ?_ (same.suits.mpr hc.1) fun k => hc.2 ?_
    · simp [child?_cut hr.linked, child?_release h.linked]
    · rw [seat?_cut, if_pos rfl]
    · exact hangs_of_hangs_release (hangs_of_hangs_cut k)

theorem sameCore_splice (w : Workspace) (p c : String) : SameCore w (w.splice p c) :=
  ((sameCore_cut w c).trans (sameCore_release _ p none)).trans (sameCore_bind ..)

theorem Sound.splice (h : w.Sound) (hc : w.Connects p none c) : (w.splice p c).Sound := by
  have hr := (h.cut c).release p none
  have same := (sameCore_cut w c).trans (sameCore_release _ p none)
  refine hr.bind ?_ ?_ (same.suits.mpr hc.1) fun k => hc.2 ?_
  · rw [child?_release (h.cut c).linked, if_pos ⟨rfl, rfl⟩]
  · exact seat?_release_of_none (by rw [seat?_cut, if_pos rfl])
  · exact hangs_of_hangs_cut (hangs_of_hangs_release k)

theorem Follows.sameCore {w' : Workspace} (h : w.Follows p c w') : SameCore w w' := by
  cases h with
  | already => exact ⟨rfl, rfl, fun _ => rfl⟩
  | alone => exact sameCore_splice w p c
  | before => exact (sameCore_splice w p c).trans (sameCore_bind ..)

theorem Sound.follows {w' : Workspace} (h : w.Sound) (hc : w.Connects p none c)
    (hf : w.Follows p c w') : w'.Sound := by
  cases hf with
  | already => exact h
  | alone => exact h.splice hc
  | @before d t e hne hd htrail he hn =>
      have htc := (h.splice hc).hangs_of_trails htrail
      have hk := h.cut c
      have hseat := (hk.linked ..).mp hd
      have hsp := h.splice hc
      have hcb : (((w.cut c).release p none).block? c).isSome := by
        rw [(sameCore_release ..).isSome_block?, (sameCore_cut ..).isSome_block?,
          hc.1.isSome_child]
      have habove (y : String) : (w.splice p c).above? y =
          if c = y then some p else ((w.cut c).release p none).above? y := above?_bind hcb y
      have hdc : c ≠ d := fun e => by
        rw [← e, seat?_cut, if_pos rfl] at hseat
        cases hseat
      have hrelease : (w.cut c).release p none = (w.cut c).cut d := by
        unfold Workspace.release
        rw [hd]
      have hroot : (w.splice p c).seat? d = none := by
        rw [← above?_eq_none, habove, if_neg hdc, above?_eq_none, hrelease, seat?_cut, if_pos rfl]
      -- what followed `p` hangs nowhere now, and is put where nothing that hangs from it is
      refine hsp.bind htrail.child?_none hroot ?_ fun k => ?_
      · obtain ⟨d₁, e₁, -, hde, -, hprev⟩ := hk.suited _ _ _ hseat
        refine ⟨e, e₁, he, ?_, hn, hprev⟩
        rw [(sameCore_splice w p c).type?, ← (sameCore_cut w c).type?]
        exact hde
      · refine hk.rooted.not_hangs_displaced (above?_eq_some.mpr ⟨_, hseat⟩)
          (fun k => hc.2 (hangs_of_hangs_cut k)) (Ne.symm hdc) (above?_eq_none.mpr hroot)
          (by rw [habove, if_pos rfl]) (fun y hyc hyd => ?_) htc k
        rw [habove, if_neg (Ne.symm hyc), hrelease, above?_cut, if_neg (Ne.symm hyd)]

end Workspace

end Blockwork
