import Blockwork.Proofs.Blocks
import Blockwork.Proofs.Connecting

/-!
# Deleting

What `Edit.delete` does to a sound workspace.  The block is cut off and left out with all that hangs
from it; when the chain is to be healed, the block behind it is cut off before, and takes the place
of the deleted one afterwards (`Workspace.Deleted`).  A sound workspace stays sound
(`Sound.deleted`): what is left out has no links to the rest, and the block that moves up suits the
slot that has become vacant.
-/

namespace Blockwork

open Forest (Rooted Hangs Lineage)

namespace Workspace

variable {w : Workspace} {x n p : String} {xs : List String}

/-- Whether names are those of the blocks that hang from a block, itself among them, each once. -/
def Branch (w : Workspace) (x : String) (xs : List String) : Prop :=
  xs.Nodup ∧ ∀ y, y ∈ xs ↔ Hangs w.above? y x

/-- What comes of deleting a block, and which blocks are left out. -/
inductive Deleted (w : Workspace) (x : String) (heal : Bool) : List String → Workspace → Prop where
  | whole {xs : List String} : (heal = true → w.child? x none = none) → (w.cut x).Branch x xs →
      Deleted w x heal xs ((w.cut x).discard xs)
  | healed {p n : String} {xs : List String} : heal = true → w.seat? x = some (p, none) →
      w.child? x none = some n → ((w.cut n).cut x).Branch x xs →
      Deleted w x heal xs ((((w.cut n).cut x).discard xs).bind p none n)
  | raised {n : String} {xs : List String} {b : Block} : heal = true → w.block? x = some b →
      (∀ p, w.seat? x ≠ some (p, none)) → w.child? x none = some n →
      ((w.cut n).cut x).Branch x xs → Deleted w x heal xs
        ((((w.cut n).cut x).discard xs).edit n fun c => { c with position := b.position })

/-! ### Sound workspaces stay sound -/

/-- A block that hangs nowhere may be left out with all that hangs from it. -/
theorem Sound.discard_branch (h : w.Sound) (hx : w.above? x = none) (hxs : w.Branch x xs) :
    (w.discard xs).Sound := by
  refine h.discard fun p s c hc => ?_
  have hcp : w.above? c = some p := above?_eq_some.mpr ⟨s, hc⟩
  rw [hxs.2, hxs.2]
  constructor
  · exact Hangs.step hcp
  · intro hk
    rcases hk.cases with rfl | ⟨q, hq, hk⟩
    · rw [hx] at hcp
      cases hcp
    · obtain rfl := Option.some.inj (hcp.symm.trans hq)
      exact hk

theorem above?_cut_self (w : Workspace) (x : String) : (w.cut x).above? x = none := by
  rw [above?_cut, if_pos rfl]

/-- What was cut off first hangs nowhere after what comes later, too. -/
theorem seat?_discard_cut (w : Workspace) (n x : String) (xs : List String) :
    (((w.cut n).cut x).discard xs).seat? n = none := by
  rw [seat?_discard, seat?_cut, seat?_cut, if_pos rfl]
  split <;> (try split) <;> rfl

/-- A block that hangs nowhere is put behind another one by the links alone: it says of no socket
that it is in there. -/
theorem Sound.edit_eq_bind (h : w.Sound) (hn : w.seat? n = none) (p : String) :
    (w.edit p (·.occupy n none)).edit n (fun c => { c with parent := .text p }) =
      w.bind p none n := by
  refine edit_congr fun f hf => ?_
  have hi : f.parentInput = .null := by
    rw [block?_edit] at hf
    split at hf
    · rename_i hpn
      subst hpn
      obtain ⟨c, hc, rfl⟩ := Option.map_eq_some_iff.mp hf
      rw [seat?, hc, Option.bind_some] at hn
      exact ((h.shaped _ c hc).parent_of_seat?_none hn).2
    · rw [seat?, hf, Option.bind_some] at hn
      exact ((h.shaped n f hf).parent_of_seat?_none hn).2
  rw [Block.settle, Value.ofText?, ← hi]

/-- The block behind a deleted one is not left out with it. -/
theorem Sound.not_mem_branch_next (h : w.Sound) (hn : w.child? x none = some n)
    (hxs : ((w.cut n).cut x).Branch x xs) : n ∉ xs := by
  rw [hxs.2]
  intro hk
  have hnx : w.above? n = some x := h.above?_of_child? hn
  have hroot : ((w.cut n).cut x).above? n = none := by
    rw [above?_cut, above?_cut_self]
    split <;> rfl
  have := hk.eq_of_root hroot
  rw [this] at hnx
  exact h.rooted.not_hangs hnx .refl

/-- Neither is the block that it hangs from. -/
theorem Sound.not_mem_branch_above (h : w.Sound) (hp : w.above? x = some p)
    (hxs : ((w.cut n).cut x).Branch x xs) : p ∉ xs := by
  rw [hxs.2]
  intro hk
  exact h.rooted.not_hangs hp (hangs_of_hangs_cut (hangs_of_hangs_cut hk))

theorem Deleted.vocabulary {heal : Bool} {w' : Workspace} (hd : w.Deleted x heal xs w') :
    w'.vocabulary = w.vocabulary := by
  cases hd with
  | whole => rw [vocabulary_discard, (sameCore_cut ..).vocabulary]
  | healed | raised =>
      exact (vocabulary_discard ..).trans
        ((sameCore_cut ..).vocabulary.trans (sameCore_cut ..).vocabulary)

theorem Deleted.created {heal : Bool} {w' : Workspace} (hd : w.Deleted x heal xs w') :
    w'.created = w.created := by
  cases hd with
  | whole => rw [created_discard, (sameCore_cut ..).created]
  | healed | raised =>
      exact (created_discard ..).trans ((sameCore_cut ..).created.trans (sameCore_cut ..).created)

theorem Deleted.minted {heal : Bool} {w' : Workspace} (hd : w.Deleted x heal xs w')
    (h : w.Minted) : w'.Minted := by
  cases hd with
  | whole => exact ((sameCore_cut w x).minted h).discard _
  | @healed p n =>
      have hcut := (sameCore_cut _ x).minted ((sameCore_cut w n).minted h)
      exact (sameCore_bind _ p none n).minted (hcut.discard _)
  | @raised n =>
      have hcut := (sameCore_cut _ x).minted ((sameCore_cut w n).minted h)
      exact (hcut.discard _).edit n _

theorem Sound.deleted {heal : Bool} {w' : Workspace} (h : w.Sound) (hd : w.Deleted x heal xs w') :
    w'.Sound := by
  cases hd with
  | whole _ hxs => exact (h.cut x).discard_branch (above?_cut_self w x) hxs
  | @raised n xs b hh hb _ hn hxs =>
      have hs := ((h.cut n).cut x).discard_branch (above?_cut_self _ x) hxs
      exact hs.edit (harmless_position b.position) n
  | @healed p n xs hh hp hn hxs =>
      have hpx : w.above? x = some p := above?_eq_some.mpr ⟨_, hp⟩
      have hnx : w.above? n = some x := h.above?_of_child? hn
      have hnm := h.not_mem_branch_next hn hxs
      have hpm := h.not_mem_branch_above hpx hxs
      refine (((h.cut n).cut x).discard_branch (above?_cut_self _ x) hxs).bind ?_ ?_ ?_ ?_
      · -- nothing follows `p` any more
        have hl := h.linked.cut n
        rw [child?_discard, if_neg hpm, child?_cut hl, child?_cut h.linked,
          (h.linked p none x).mpr hp]
        have hxn : x ≠ n := fun e => h.rooted.not_hangs (e ▸ hnx) .refl
        simp [hxn]
      · exact seat?_discard_cut w n x xs
      · -- the block behind takes what the deleted one took
        obtain ⟨d, e, hd, he, ht⟩ := h.suited _ _ _ hp
        obtain ⟨e', f, he', hf, ht'⟩ := h.suited _ _ _ ((h.linked ..).mp hn)
        have same := (sameCore_cut w n).trans (sameCore_cut _ x)
        refine ⟨d, f, ?_, ?_, ht.1, ht'.2⟩
        · rw [type?_discard, if_neg hpm, same.type?, hd]
        · rw [type?_discard, if_neg hnm, same.type?, hf]
      · -- a link that the cuts left was there before
        intro hk
        have hk : Hangs w.above? p n :=
          hangs_of_hangs_cut (hangs_of_hangs_cut (hangs_of_hangs_discard hk))
        exact h.rooted.not_hangs hpx (hk.tail hnx)

end Workspace

/-! ### The edits -/

namespace Edit

variable {w : Workspace} {x : String} {b : Block} {bad : Error → Workspace → Prop}

/-- What an edit answers when blocks are deleted. -/
def deleted (k : Key) (xs : List String) : List Notice :=
  [notice .delete k [("ids", .list (xs.map .text))]]

/-- Blocks that are there are removed one after the other. -/
theorem ends_removeAll {xs : List String} (hnd : xs.Nodup) (hx : ∀ x ∈ xs, (w.block? x).isSome)
    {good : Unit → Workspace → Prop} (hg : good () (w.discard xs)) :
    Ends (removeAll (xs.map .text)) w good bad := by
  induction xs generalizing w with
  | nil => exact Ends.pure hg
  | cons x xs ih =>
      obtain ⟨hxs, hnd⟩ := List.nodup_cons.mp hnd
      obtain ⟨b, hb⟩ := Option.isSome_iff_exists.mp (hx x List.mem_cons_self)
      refine Ends.bind (ends_follow rfl hb (Ends.bind (Ends.modify ?_)))
      refine ih (w := w.drop x) hnd (fun y hy => ?_) hg
      rw [Workspace.block?_drop, if_neg fun e : x = y => hxs (e ▸ hy)]
      exact hx y (List.mem_cons_of_mem _ hy)

/-- The branch of a block is removed. -/
theorem ends_removeBranch (h : w.Sound) (hx : (w.block? x).isSome) {bs : List Block}
    (hbs : w.IsBelow x bs) {good : Unit → Workspace → Prop}
    (hg : ∀ xs, bs.map (·.id) = xs.map .text → w.Branch x xs → good () (w.discard xs)) :
    Ends (removeAll (bs.map (·.id))) w good bad := by
  obtain ⟨xs, hids, hnd, hxs⟩ := hbs
  have hgood := hg xs hids ⟨hnd, hxs⟩
  rw [hids]
  refine ends_removeAll hnd (fun y hy => ?_) hgood
  rcases Relation.ReflTransGen.cases_head ((hxs y).mp hy) with rfl | ⟨p, hp, -⟩
  · exact hx
  · obtain ⟨s, hs⟩ := Workspace.above?_eq_some.mp hp
    exact h.isSome_child ((h.linked ..).mpr hs)

/-- The block behind a deleted one takes its place. -/
theorem ends_moveUp (h : w.Sound) {w' : Workspace} {n : String} {heal : Bool} {xs : List String}
    (hb : w.block? x = some b) (hn : w.child? x none = some n) (hheal : heal = true)
    (hxs : ((w.cut n).cut x).Branch x xs) (hw' : w' = ((w.cut n).cut x).discard xs)
    {good : Unit → Workspace → Prop} (hg : ∀ w'', w.Deleted x heal xs w'' → good () w'') :
    Ends (moveUp b) w' good bad := by
  have hsh := h.shaped x b hb
  have same := (w.sameCore_cut n).trans ((w.cut n).sameCore_cut x)
  have there {y : String} (hy : y ∉ xs) (hs : (w.block? y).isSome) : (w'.block? y).isSome := by
    rw [hw', Workspace.block?_discard, if_neg hy, same.isSome_block?, hs]
  have hnm := h.not_mem_branch_next hn hxs
  have hnb := there hnm (h.isSome_child hn)
  obtain ⟨c, hc⟩ := Option.isSome_iff_exists.mp hnb
  have hbn : b.next = .text n := by
    rw [h.next_eq hb, hn]
    rfl
  have hseat : w.seat? x = b.seat? := by rw [Workspace.seat?, hb, Option.bind_some]
  unfold moveUp
  rw [hbn]
  refine Ends.bind (ends_follow rfl hc ?_)
  -- `b` is as it was before the cuts, so it still says where the deleted block hung
  cases hs : b.seat? with
  | none =>
      rw [(hsh.parent_of_seat?_none hs).1]
      refine Ends.bind (Ends.pure (Ends.bind (Ends.get ?_)))
      refine ends_update (hg _ ?_)
      rw [hw']
      refine .raised hheal hb (fun p hp => ?_) hn hxs
      rw [hseat.trans hs] at hp
      cases hp
  | some q =>
      obtain ⟨p, s⟩ := q
      obtain ⟨hp, hi⟩ := hsh.parent_of_seat? hs
      have hpx := hseat.trans hs
      have hpm := h.not_mem_branch_above (Workspace.above?_eq_some.mpr ⟨s, hpx⟩) hxs
      have hpb := there hpm (h.isSome_parent hpx)
      have hne : p ≠ "" := by
        obtain ⟨a, ha⟩ := Option.isSome_iff_exists.mp (h.isSome_parent hpx)
        exact h.ne_empty ha
      rw [hp, if_pos (by simpa [Value.isTruthy] using hne)]
      refine Ends.bind (Ends.map (ends_ofExcept_ok rfl (Ends.bind (Ends.get ?_))))
      rw [Option.filter_some, if_pos (show w'.contains (.text p) = true from hpb)]
      cases s with
      | some s =>
          rw [hi]
          refine ends_update (hg _ ?_)
          rw [hw']
          refine .raised hheal hb (fun p' hp' => ?_) hn hxs
          rw [hpx] at hp'
          cases hp'
      | none =>
          rw [hi]
          refine Ends.bind (ends_update (ends_update ?_))
          have hw := ((h.cut n).cut x).discard_branch (Workspace.above?_cut_self _ x) hxs
          have := hg _ (.healed hheal hpx hn hxs)
          rw [← hw.edit_eq_bind (w.seat?_discard_cut n x xs), ← hw'] at this
          exact this

/-- A block that is there is deleted, and the answer is which blocks are left out. -/
theorem ends_delete (h : w.Sound) {id : Key} {heal : Bool} {good : List Notice → Workspace → Prop}
    (hb : ∀ e, w.find? id = none → bad e w)
    (hg : ∀ x xs w', id = .text x → w.Deleted x heal xs w' → good (deleted id xs) w') :
    Ends (delete id heal) w good bad := by
  unfold delete
  refine Ends.bind (ends_require (fun b hf => ?_) (hb _))
  obtain ⟨x, rfl, hx⟩ := h.key_text hf
  have hg' := fun xs w' => hg x xs w' rfl
  have hnext := h.next_eq hx
  by_cases hh : (heal && b.next != .null) = true
  · obtain ⟨hheal, hne⟩ := Bool.and_eq_true_iff.mp hh
    cases hn : w.child? x none with
    | none => rw [hnext, hn] at hne; cases hne
    | some n =>
        obtain ⟨bn, hbn⟩ := Option.isSome_iff_exists.mp (h.isSome_child hn)
        have hk := h.cut n
        obtain ⟨b', hb'⟩ := Option.isSome_iff_exists.mp
          (((w.sameCore_cut n).isSome_block? x).trans (by rw [hx]; rfl))
        have hk' := hk.cut x
        have hxb : (((w.cut n).cut x).block? x).isSome := by
          rw [((w.cut n).sameCore_cut x).isSome_block?, hb']
          rfl
        obtain ⟨bs, hbs, hbelow⟩ := hk'.exists_descendants hxb
        dsimp only
        rw [if_pos hh]
        refine Ends.bind (ends_follow (by rw [hnext, hn]; rfl) hbn (Ends.bind (ends_unplug h hbn ?_)))
        refine Ends.bind (ends_unplug hk hb' (Ends.bind (Ends.get ?_)))
        refine Ends.bind (ends_ofExcept_ok hbs ?_)
        refine Ends.bind (ends_removeBranch hk' hxb hbelow fun xs hids hxs => ?_)
        rw [if_pos hh, hids]
        exact Ends.bind (ends_moveUp h hx hn hheal hxs rfl fun w'' hd => Ends.pure (hg' xs w'' hd))
  · have hk := h.cut x
    have hxb : ((w.cut x).block? x).isSome := by
      rw [(w.sameCore_cut x).isSome_block?, hx]
      rfl
    obtain ⟨bs, hbs, hbelow⟩ := hk.exists_descendants hxb
    dsimp only
    rw [if_neg hh]
    refine Ends.bind (ends_unplug h hx (Ends.bind (Ends.get ?_)))
    refine Ends.bind (ends_ofExcept_ok hbs ?_)
    refine Ends.bind (ends_removeBranch hk hxb hbelow fun xs hids hxs => ?_)
    rw [if_neg hh, hids]
    refine Ends.pure (hg' xs _ (.whole (fun hheal => ?_) hxs))
    cases hn : w.child? x none with
    | none => rfl
    | some n =>
        rw [hheal, hnext, hn] at hh
        exact absurd rfl hh

end Edit

end Blockwork
