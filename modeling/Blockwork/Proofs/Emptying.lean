import Mathlib.Data.List.Forall2
import Blockwork.Proofs.Deleting
import Blockwork.Proofs.Scenes
import Blockwork.Proofs.Tops

/-!
# Emptying a workspace

While a workspace is muted, an action does no more to its scene than its edits do
(`Act.ends_perform_muted`).  Deleting the blocks at the top one after the other, each with all that
hangs from it, leaves no block (`Act.ends_clear_muted`): every block hangs from one of them, and the
blocks that stay hang from the ones that are still to be deleted.
-/

namespace Blockwork

open Forest (Rooted Hangs Lineage)

/-! ### Roots -/

namespace Workspace

variable {w : Workspace} {x y t : String} {xs : List String}

/-- Every block hangs from a block at the top. -/
theorem Sound.exists_root (h : w.Sound) (hx : (w.block? x).isSome) :
    ∃ t b, w.block? t = some b ∧ b.isTop = true ∧ Hangs w.above? x t := by
  obtain ⟨l, hl⟩ := h.rooted x
  obtain ⟨t, ht, hroot⟩ := hl.exists_getLast
  have hxt : Hangs w.above? x t := hl.mem_iff.mp (List.mem_of_getLast? ht)
  obtain ⟨b, hb⟩ := Option.isSome_iff_exists.mp (h.isSome_of_hangs hxt hx)
  exact ⟨t, b, hb, (h.isTop_iff hb).mpr hroot, hxt⟩

/-- No two blocks have one id. -/
theorem Sound.nodup_ids (h : w.Sound) : (w.blocks.map (·.id)).Nodup := by
  rw [blocks, List.map_map, List.Nodup, List.pairwise_map]
  refine (List.pairwise_map.mp w.table.distinct).imp_of_mem ?_
  rintro ⟨k, b⟩ ⟨k', b'⟩ hm hm' hne he
  obtain ⟨x, -, rfl, hx⟩ := h.named _ _ (find?_of_mem_entries hm)
  obtain ⟨x', -, rfl, hx'⟩ := h.named _ _ (find?_of_mem_entries hm')
  have hxx : b.id = b'.id := he
  rw [hx, hx'] at hxx
  exact hne (by rw [Value.text.inj hxx])

/-- The blocks at the top have names, and every block hangs from one of them. -/
theorem Sound.exists_topmost (h : w.Sound) {tops : List Block}
    (hperm : tops.Perm (w.blocks.filter (·.isTop))) :
    ∃ xs : List String, List.Forall₂ (fun x b => w.block? x = some b ∧ b.isTop = true) xs tops ∧
      xs.Nodup ∧ (∀ x ∈ xs, w.above? x = none) ∧
        ∀ y, (w.block? y).isSome → ∃ x ∈ xs, Hangs w.above? y x := by
  obtain ⟨xs, hxs⟩ : ∃ xs : List String,
      List.Forall₂ (fun x b => w.block? x = some b ∧ b.isTop = true) xs tops := by
    refine exists_forall₂ fun b hb => ?_
    obtain ⟨hb, htop⟩ := List.mem_filter.mp (hperm.mem_iff.mp hb)
    obtain ⟨e, he, rfl⟩ := List.mem_map.mp hb
    obtain ⟨x, -, hx⟩ := h.key_text (find?_of_mem_entries he)
    exact ⟨x, hx, htop⟩
  have hids : tops.map (·.id) = xs.map .text := map_eq_of_forall₂ hxs fun x b hb => h.id_eq hb.1
  have hroots : List.Forall₂ (fun x b => w.above? x = none ∧ w.block? x = some b) xs tops :=
    hxs.imp fun _ _ hb => ⟨(h.isTop_iff hb.1).mp hb.2, hb.1⟩
  refine ⟨xs, hxs, ?_, ((List.forall₂_and_left _ _).mp hroots).1, fun y hy => ?_⟩
  · refine List.Nodup.of_map Value.text ?_
    rw [← hids, (hperm.map _).nodup_iff]
    exact h.nodup_ids.sublist (List.filter_sublist.map _)
  · obtain ⟨t, b, hb, htop, hyt⟩ := h.exists_root hy
    have hmem : b ∈ tops := hperm.mem_iff.mpr
      (List.mem_filter.mpr ⟨List.mem_map.mpr ⟨_, mem_entries.mpr hb, rfl⟩, htop⟩)
    obtain ⟨x, hx, hxb, -⟩ := exists_of_mem_forall₂ hxs hmem
    obtain rfl : x = t := Value.text.inj ((h.id_eq hxb).symm.trans (h.id_eq hb))
    exact ⟨x, hx, hyt⟩

theorem cut_of_seat?_none (hx : w.seat? x = none) : w.cut x = w := by
  unfold cut
  rw [hx]

/-- What does not hang from a block that is left out hangs where it did. -/
theorem Branch.hangs_discard (hxs : w.Branch x xs) (hy : y ∉ xs) (hyt : Hangs w.above? y t) :
    Hangs (w.discard xs).above? y t := by
  -- up the way: what is above a block that stays is not in the branch, or the block would be
  induction hyt using Relation.ReflTransGen.head_induction_on with
  | refl => exact .refl
  | @head y p hp _ ih =>
      have hpx : p ∉ xs := fun hm => hy ((hxs.2 y).mpr (((hxs.2 p).mp hm).step hp))
      refine (ih hpx).step ?_
      rw [above?_discard, if_neg hy, hp]

/-- Whether every block hangs from one that an id belongs to. -/
def Covered (w : Workspace) (ids : List Value) : Prop :=
  ∀ y, (w.block? y).isSome → ∃ t, Value.text t ∈ ids ∧ Hangs w.above? y t

theorem Covered.eq_none (h : w.Covered []) (hs : w.Sound) (k : Key) : w.find? k = none := by
  by_contra hk
  obtain ⟨b, hb⟩ := Option.ne_none_iff_exists'.mp hk
  obtain ⟨x, rfl, hx⟩ := hs.key_text hb
  obtain ⟨t, ht, -⟩ := h x (by rw [hx]; rfl)
  cases ht

/-- What stays when a branch is left out hangs from the other blocks that everything hung from. -/
theorem Covered.discard {ids : List Value} (h : w.Covered (.text x :: ids)) (hxs : w.Branch x xs) :
    (w.discard xs).Covered ids := by
  intro y hy
  rw [block?_discard] at hy
  split at hy
  · cases hy
  · rename_i hyx
    obtain ⟨t, ht, hyt⟩ := h y hy
    rcases List.mem_cons.mp ht with he | ht
    · obtain rfl := Value.text.inj he
      exact absurd ((hxs.2 y).mpr hyt) hyx
    · exact ⟨t, ht, hxs.hangs_discard hyx hyt⟩

theorem muted_discard (w : Workspace) (xs : List String) : (w.discard xs).muted = w.muted := by
  induction xs generalizing w with
  | nil => rfl
  | cons x xs ih => exact ih (w.drop x)

end Workspace

/-! ### Muted actions -/

namespace Act

variable {σ : Type} {a : Audience σ} {s : Scene σ} {good : Unit → Scene σ → Prop}
  {bad : Error → Scene σ → Prop}

theorem ends_tellAll_muted (hm : s.workspace.muted ≠ 0) {ns : List Notice} (hg : good () s) :
    Ends (tellAll a ns) s good bad := by
  induction ns with
  | nil => exact Ends.pure hg
  | cons n ns ih =>
      refine Ends.bind (Ends.bind (Ends.get ?_))
      dsimp only
      rw [if_neg hm]
      exact Ends.pure ih

theorem ends_perform_muted {e : Edit (List Notice)} (h : Ends e s.workspace
    (fun _ w => w.muted ≠ 0 ∧ good () { s with workspace := w })
    fun x w => bad x { s with workspace := w }) : Ends (perform a e) s good bad :=
  Ends.bind (ends_edit (h.mono (fun _ _ hw => ends_tellAll_muted hw.1 hw.2) fun _ _ hb => hb))

/-- Deleting the roots of all blocks leaves none. -/
theorem ends_deleteAll_roots {ids : List String} (h : s.workspace.Sound)
    (hm : s.workspace.muted ≠ 0) (hroot : ∀ t ∈ ids, s.workspace.above? t = none)
    (hall : s.workspace.Covered (ids.map .text))
    (hg : ∀ w : Workspace, (∀ k, w.find? k = none) → w.vocabulary = s.workspace.vocabulary →
      w.muted = s.workspace.muted → good () { s with workspace := w }) :
    Ends (deleteAll a (ids.map .text)) s good bad := by
  -- over the roots that are left: they still cover all blocks, so none is there in the end
  induction ids generalizing s with
  | nil => exact Ends.pure (hg s.workspace (hall.eq_none h) rfl rfl)
  | cons t ids ih =>
      have hrest := fun t' ht' => hroot t' (List.mem_cons_of_mem t ht')
      refine Ends.bind (ends_ofExcept_ok rfl (Ends.bind (Ends.get ?_)))
      dsimp only
      split
      · rename_i hthere
        refine Ends.bind (ends_perform_muted (Edit.ends_delete h (fun _ hn => ?_) ?_))
        · change (s.workspace.find? (.text t)).isSome = true at hthere
          rw [hn] at hthere
          cases hthere
        · intro x xs w' hx hd
          cases hx
          have htop := hroot t List.mem_cons_self
          cases hd with
          | healed hheal | raised hheal => cases hheal
          | whole _ hxs =>
              rw [Workspace.cut_of_seat?_none (Workspace.above?_eq_none.mp htop)] at hxs ⊢
              have hmuted := s.workspace.muted_discard xs
              have hsound := h.discard_branch htop hxs
              refine ⟨by rw [hmuted]; exact hm, ih hsound (by rw [hmuted]; exact hm) ?_
                (hall.discard hxs) ?_⟩
              · intro t' ht'
                change (s.workspace.discard xs).above? t' = none
                rw [Workspace.above?_discard, hrest t' ht']
                split <;> rfl
              · intro w hnone hv hmw
                exact hg w hnone (hv.trans (s.workspace.vocabulary_discard xs)) (hmw.trans hmuted)
      · -- nothing hangs from a block that is not there
        rename_i hnot
        refine ih h hm hrest (fun y hy => ?_) hg
        obtain ⟨t', ht', hyt⟩ := hall y hy
        rcases List.mem_cons.mp ht' with he | ht'
        · obtain rfl := Value.text.inj he
          exact absurd (h.isSome_of_hangs hyt hy) hnot
        · exact ⟨t', ht', hyt⟩

/-- **Emptying a workspace that is muted leaves no block**, and the rest of the scene as it is. -/
theorem ends_clear_muted (h : s.workspace.Sound) (hp : s.workspace.Placed)
    (hm : s.workspace.muted ≠ 0)
    (hg : ∀ w : Workspace, (∀ k, w.find? k = none) → w.vocabulary = s.workspace.vocabulary →
      w.muted = s.workspace.muted → good () { s with workspace := w }) :
    Ends (clear a) s good bad := by
  obtain ⟨tops, htops, hperm, -⟩ := h.exists_tops hp
  obtain ⟨xs, hxs, -, hroots, hall⟩ := h.exists_topmost hperm
  have hids : tops.map (·.id) = xs.map .text := map_eq_of_forall₂ hxs fun x b hb => h.id_eq hb.1
  unfold clear
  refine Ends.bind (Ends.get (Ends.bind (ends_ofExcept_ok htops ?_)))
  rw [hids]
  refine ends_deleteAll_roots h hm hroots (fun y hy => ?_) hg
  obtain ⟨x, hx, hyx⟩ := hall y hy
  exact ⟨x, List.mem_map_of_mem hx, hyx⟩

end Act

end Blockwork
