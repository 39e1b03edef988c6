import Blockwork.Proofs.Highlighting
import Blockwork.Proofs.Likeness
import Blockwork.Proofs.Surveying
import Blockwork.Proofs.Turns

/-!
# Colours do not count

Workspaces whose blocks differ in no more than their colours (`Workspace.Tinted`) are stored as one
text (`Workspace.Tinted.textOf_eq`), and have one program, if the rules do not look at colours
(`Workspace.Tinted.prepare_eq`).  Highlighting changes no more than colours, whatever blocks are
highlighted and restored (`Highlighter.keeping_recoloured`).
-/

namespace Blockwork

open Relation (ReflTransGen)

/-- Whether two blocks differ in no more than their colours. -/
def Block.Tinted (b c : Block) : Prop :=
  ∃ colour savedColour, c = { b with colour, savedColour }

/-- Whether the rules of a compiler do not look at the colours of blocks. -/
def Compiler.ColourBlind (t : Compiler) : Prop := t.Respects Block.Tinted

theorem Block.Tinted.like {b c : Block} (h : b.Tinted c) : b.Like c := by
  obtain ⟨_, _, rfl⟩ := h
  exact ⟨rfl, rfl, rfl, rfl, rfl, fun _ => rfl⟩

/-- Whether the blocks of two workspaces differ in no more than their colours. -/
structure Workspace.Tinted (w u : Workspace) : Prop where
  vocabulary : u.vocabulary = w.vocabulary
  entries : List.Forall₂ (fun e f => e.1 = f.1 ∧ e.2.Tinted f.2) w.entries u.entries

namespace Workspace.Tinted

variable {w u : Workspace} {b c : Block}

theorem of_modify (w : Workspace) (k : Key) (colour saved : Block → Value) :
    w.Tinted { w with
      table := w.table.modify k fun b => { b with colour := colour b, savedColour := saved b } } where
  vocabulary := rfl
  entries := by
    change List.Forall₂ _ w.table.entries (w.table.modify k _).entries
    have same : List.Forall₂ (fun e f : Key × Block => e.1 = f.1 ∧ e.2.Tinted f.2)
        w.table.entries w.table.entries :=
      List.forall₂_same.mpr fun _ _ => ⟨rfl, _, _, rfl⟩
    unfold Table.modify
    split
    · rename_i b hb
      rw [Table.find?_eq] at hb
      rw [Table.entries_put]
      generalize w.table.entries = es at hb same
      induction es with
      | nil => cases hb
      | cons e es ih =>
          rw [Entries.get?_cons] at hb
          rw [Entries.put]
          split at hb
          · obtain rfl := Option.some.inj hb
            rw [if_pos ‹_›]
            exact .cons ⟨rfl, _, _, rfl⟩ (List.forall₂_cons.mp same).2
          · rw [if_neg ‹_›]
            exact .cons ⟨rfl, _, _, rfl⟩ (ih hb (List.forall₂_cons.mp same).2)
    · exact same

theorem refl (w : Workspace) : w.Tinted w where
  vocabulary := rfl
  entries := List.forall₂_same.mpr fun _ _ => ⟨rfl, _, _, rfl⟩

theorem gesture (w : Workspace) (dragging : Bool) : w.Tinted { w with dragging } :=
  ⟨rfl, (refl w).entries⟩

theorem trans {v : Workspace} (h : w.Tinted u) (k : u.Tinted v) : w.Tinted v where
  vocabulary := k.vocabulary.trans h.vocabulary
  entries := by
    refine (forall₂_of_common h.entries.flip k.entries).imp ?_
    rintro e f ⟨_, ⟨hk, _, _, hb⟩, hk', _, _, hc⟩
    exact ⟨hk.trans hk', _, _, by rw [hc, hb]⟩

theorem find? (h : w.Tinted u) (k : Key) : Option.Rel Block.Tinted (w.find? k) (u.find? k) := by
  rw [Workspace.find?, Workspace.find?, Table.find?_eq, Table.find?_eq]
  exact Entries.rel_get? h.entries fun i l hil => by rw [hil]

theorem likeBy (h : w.Tinted u) : w.LikeBy Block.Tinted u where
  like := Block.Tinted.like
  vocabulary := h.vocabulary
  find? := h.find?

/-! ### What is read of workspaces -/

variable (h : w.Tinted u)

include h

theorem place?_eq (k : Key) : u.table.place? k = w.table.place? k :=
  (findIdx?_eq_of_forall₂ (fun _ _ hef => by rw [hef.1]) h.entries).symm

/-- The same blocks hang nowhere, and they come in the same order. -/
theorem twin_tops : Except.Twin Eq (List.Forall₂ fun b c => b.Tinted c ∧ c.position = b.position)
    w.tops u.tops := by
  have spots : Except.Twin Eq (List.Forall₂ fun s t : Spot => s.block.Tinted t.block ∧ s.y = t.y ∧
      s.x = t.x ∧ s.rank = t.rank) w.spots u.spots := by
    have htop := List.rel_filter (p := (·.1.2.isTop)) (q := (·.1.2.isTop))
      (fun e f hef => by
        obtain ⟨⟨_, b⟩, _⟩ := e
        obtain ⟨⟨_, c⟩, _⟩ := f
        obtain ⟨⟨-, _, _, rfl⟩, -⟩ := hef
        rfl) (forall₂_zipIdx h.entries 0)
    refine Except.Twin.mapM htop ?_
    rintro ⟨⟨k, b⟩, i⟩ ⟨⟨_, _⟩, _⟩ ⟨⟨rfl, _, _, rfl⟩, rfl⟩
    have hrank : u.rankOf k i b.id = w.rankOf k i b.id := by
      unfold rankOf
      simp only [h.place?_eq]
    dsimp only [spotOf, coordinate]
    rw [hrank]
    refine (Except.Twin.refl (fun _ => rfl) _).bind ?_
    rintro y _ rfl
    refine (Except.Twin.refl (fun _ => rfl) _).bind ?_
    rintro x _ rfl
    refine (Except.Twin.refl (fun _ => rfl) _).bind ?_
    rintro rank _ rfl
    exact .ok ⟨⟨_, _, rfl⟩, rfl, rfl, rfl⟩
  refine spots.bind fun xs ys hxs => ?_
  have hsorted : Option.Rel _ (Sorting.sort Spot.before xs) (Sorting.sort Spot.before ys) :=
    Sorting.rel_sort (fun s s' t t' hs hs' => by simp only [Spot.before, hs.2, hs'.2]) hxs
  generalize Sorting.sort Spot.before xs = s at hsorted
  generalize Sorting.sort Spot.before ys = s' at hsorted
  cases hsorted with
  | none => exact .error rfl
  | some hall =>
      refine .ok ?_
      rw [List.forall₂_map_left_iff, List.forall₂_map_right_iff]
      refine hall.imp fun _ _ hs => ⟨hs.1, ?_⟩
      obtain ⟨_, _, he⟩ := hs.1
      rw [he]

/-- Workspaces that differ in colours have one program and one text of it, if the rules do not look
at colours. -/
theorem prepare_eq {t : Compiler} (ht : t.ColourBlind) :
    Session.prepare t u = Session.prepare t w := h.likeBy.prepare_eq h.twin_tops ht

end Workspace.Tinted

/-! ### Highlights -/

namespace Workspace

variable {w u : Workspace}

/-- Whether a workspace comes of another one by changes of the colours of blocks. -/
def Recoloured : Workspace → Workspace → Prop :=
  ReflTransGen fun w u => ∃ (k : Key) (colour saved : Block → Value), u = { w with
    table := w.table.modify k fun b => { b with colour := colour b, savedColour := saved b } }

theorem Recoloured.tinted (h : w.Recoloured u) : w.Tinted u := by
  induction h with
  | refl => exact .refl w
  | tail _ hu ih =>
      obtain ⟨k, colour, saved, rfl⟩ := hu
      exact ih.trans (.of_modify _ k colour saved)

theorem Recoloured.gesture_eq (h : w.Recoloured u) :
    u.dragging = w.dragging ∧ u.muted = w.muted := by
  induction h with
  | refl => exact ⟨rfl, rfl⟩
  | tail _ hu ih =>
      obtain ⟨k, colour, saved, rfl⟩ := hu
      exact ih

theorem Recoloured.later (h : w.Recoloured u) (hw : w.Sound) : w.Later u := by
  induction h with
  | refl => exact hw.later
  | @tail v _ _ hu ih =>
      obtain ⟨k, colour, saved, rfl⟩ := hu
      refine ih.trans ?_
      cases hk : v.find? k with
      | none =>
          have hsame : v.table.modify k (fun b =>
              { b with colour := colour b, savedColour := saved b }) = v.table := by
            unfold Table.modify
            rw [show v.table.find? k = none from hk]
          rw [hsame]
          exact ih.sound.later
      | some b =>
          obtain ⟨x, rfl, -⟩ := ih.sound.key_text hk
          exact Harmless.later ih.sound (harmless_colours colour saved) x

theorem Recoloured.placed (h : w.Recoloured u) (hw : w.Placed) : u.Placed := by
  induction h with
  | refl => exact hw
  | tail _ hu ih =>
      obtain ⟨k, colour, saved, rfl⟩ := hu
      intro x b hb
      obtain ⟨c, hc, rfl | rfl⟩ := find?_update_exists hb
      · exact ih x _ hc
      · exact ih x c hc

end Workspace

theorem Highlighter.keeping_recoloured (h : Highlighter) (w : Workspace) :
    h.Keeping w.Recoloured :=
  .of_colours h fun _ k colour saved hw => hw.tail ⟨k, colour, saved, rfl⟩

end Blockwork
