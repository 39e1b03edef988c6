import Blockwork.Proofs.Relabelling
import Blockwork.Proofs.Tops

/-!
# The order of blocks at the top in two workspaces

Blocks at the top are in an order that depends on their positions and on which was created earlier.
When those of two workspaces match one by one in the order of their creation, so do they from top to
bottom and from left to right (`Workspace.Filed.exists_matching_tops`), even where positions cannot
be compared.  Where all can be, further blocks at the top leave the order of the others as it is
(`Workspace.Spot.sort_filter`).
-/

namespace Blockwork

namespace Workspace

variable {w u : Workspace}

/-- The spots of the blocks at the top, in the order of creation. -/
theorem Filed.exists_row (h : w.Filed) (hp : ∀ k b, w.find? k = some b → b.isTop = true →
    ∃ x y, b.position = [.float x, .float y]) :
    ∃ spots, w.spots = .ok spots ∧ spots.map (·.block) = w.blocks.filter (·.isTop) ∧
      (spots.Pairwise fun s t => s.rank < t.rank) ∧ ∀ s ∈ spots, s.Shows w := by
  obtain ⟨spots, hspots, hall⟩ := h.exists_spots hp
  refine ⟨spots, hspots, ?_, ?_, fun s hs => ?_⟩
  · rw [map_eq_of_forall₂ hall fun _ _ he => he.1, blocks_of_zipIdx]
    rfl
  · rw [← List.pairwise_map, map_eq_of_forall₂ hall fun _ _ he => he.2.1]
    refine List.Pairwise.sublist (List.filter_sublist.map _) ?_
    rw [List.zipIdx_map_snd]
    exact List.pairwise_lt_range'
  · obtain ⟨e, -, -, -, he⟩ := exists_of_mem_forall₂ hall hs
    exact he

namespace Spot

/-- Whether two spots are in one place, and a relation holds between the blocks there. -/
def Matches (Q : Block → Block → Prop) (s t : Spot) : Prop :=
  Q s.block t.block ∧ t.x = s.x ∧ t.y = s.y

/-- Spots in the same places are sorted alike, whatever their ranks, as long as these rise in both
rows. -/
theorem rel_sort {Q : Block → Block → Prop} {ss ts : List Spot}
    (hss : ss.Pairwise fun s t => s.rank < t.rank) (hts : ts.Pairwise fun s t => s.rank < t.rank)
    (h : List.Forall₂ (Matches Q) ss ts) :
    Option.Rel (List.Forall₂ (Matches Q)) (Sorting.sort before ss) (Sorting.sort before ts) := by
  -- spots that match stand at one place in their rows
  let Aligned (s t : Spot) : Prop := Matches Q s t ∧ ∃ i : Nat, ss[i]? = some s ∧ ts[i]? = some t
  have hrank (rs : List Spot) (hrs : rs.Pairwise fun s t => s.rank < t.rank) {i j : Nat} {s s' : Spot}
      (hi : rs[i]? = some s) (hj : rs[j]? = some s') : s.rank < s'.rank ↔ i < j := by
    obtain ⟨hil, rfl⟩ := List.getElem?_eq_some_iff.mp hi
    obtain ⟨hjl, rfl⟩ := List.getElem?_eq_some_iff.mp hj
    have hlt := List.pairwise_iff_getElem.mp hrs
    refine ⟨fun hr => ?_, hlt i j hil hjl⟩
    rcases lt_trichotomy i j with hij | rfl | hij
    · exact hij
    · exact absurd hr (lt_irrefl _)
    · exact absurd (hlt j i hjl hil hij) hr.asymm
  have haligned : List.Forall₂ Aligned ss ts := by
    rw [List.forall₂_iff_get] at h ⊢
    refine ⟨h.1, fun i hi hi' => ⟨h.2 i hi hi', i, ?_, ?_⟩⟩
    · exact List.getElem?_eq_getElem hi
    · exact List.getElem?_eq_getElem hi'
  have hbefore : ∀ s s' t t', Aligned s t → Aligned s' t' → before s s' = before t t' := by
    rintro s s' t t' ⟨⟨-, hx, hy⟩, i, hi, hi'⟩ ⟨⟨-, hx', hy'⟩, j, hj, hj'⟩
    have hlt : s.rank < s'.rank ↔ t.rank < t'.rank :=
      (hrank ss hss hi hj).trans (hrank ts hts hi' hj').symm
    unfold before
    rw [hx, hy, hx', hy']
    simp only [hlt]
  have hsorted := Sorting.rel_sort hbefore haligned
  generalize Sorting.sort before ss = o at hsorted
  generalize Sorting.sort before ts = o' at hsorted
  cases hsorted with
  | none => exact .none
  | some hall => exact .some (hall.imp fun _ _ hst => hst.1)

/-- Where all spots can be compared, those that are left out make no difference to the order of the
others. -/
theorem sort_filter {ss : List Spot} (hss : ss.Pairwise fun s t => s.rank < t.rank)
    (hn : ∀ s ∈ ss, s.Settled) {sorted : List Spot} (h : Sorting.sort before ss = some sorted)
    (p : Spot → Bool) : Sorting.sort before (ss.filter p) = some (sorted.filter p) := by
  obtain ⟨sorted', hsort', -, hrises⟩ := Sorting.exists_sort compares_before hn
  obtain rfl := Option.some.inj (h.symm.trans hsort')
  obtain ⟨left, hleft, hperm, hleftRises⟩ := Sorting.exists_sort compares_before
    fun s hs => hn s (List.mem_of_mem_filter hs)
  have hpermAll := (Sorting.sort_perm h).filter p
  have hequal : ∀ s t, s ∈ left → t ∈ sorted.filter p → s.place ≤ t.place → t.place ≤ s.place →
      s = t := by
    intro s t hs ht hst hts
    have hplace := le_antisymm hst hts
    have hs : s ∈ ss := List.mem_of_mem_filter (hperm.mem_iff.mp hs)
    have ht : t ∈ ss := List.mem_of_mem_filter (hpermAll.mem_iff.mp ht)
    have hranks : (ss.map (·.rank)).Nodup := (List.pairwise_map.mpr hss).imp fun hlt => hlt.ne
    exact List.inj_on_of_nodup_map hranks hs ht (congrArg (fun p => (ofLex (ofLex p).2).2) hplace)
  rw [hleft, (hperm.trans hpermAll.symm).eq_of_pairwise hequal hleftRises (hrises.filter p)]

end Spot

/-- Spots match where their blocks do. -/
theorem forall₂_matches {Q : Block → Block → Prop} {ss ts : List Spot} (hss : ∀ s ∈ ss, s.Shows w)
    (hts : ∀ t ∈ ts, t.Shows u) (h : List.Forall₂ (fun b c => Q b c ∧ c.position = b.position)
      (ss.map (·.block)) (ts.map (·.block))) : List.Forall₂ (Spot.Matches Q) ss ts := by
  rw [List.forall₂_map_left_iff, List.forall₂_map_right_iff] at h
  induction h with
  | nil => exact .nil
  | @cons s t ss ts hst _ ih =>
      have hs := (hss s List.mem_cons_self).placed
      have ht := (hts t List.mem_cons_self).placed
      rw [hst.2, hs] at ht
      obtain ⟨hx, hy⟩ : s.x = t.x ∧ s.y = t.y := by simpa using ht
      exact .cons ⟨hst.1, hx.symm, hy.symm⟩ (ih (fun s hs => hss s (List.mem_cons_of_mem _ hs))
        fun t ht => hts t (List.mem_cons_of_mem _ ht))

theorem tops_of_sort {spots sorted : List Spot} (hs : w.spots = .ok spots)
    (hsort : Sorting.sort Spot.before spots = some sorted) : w.tops = .ok (sorted.map (·.block)) := by
  simp only [tops, hs, Bind.bind, Except.bind, hsort]
  rfl

/-- **Blocks at the top that match come in one order**: when no others are at the top, and among
others when all positions can be compared. -/
theorem Filed.exists_matching_tops {Q : Block → Block → Prop} (hw : w.Filed) (hu : u.Filed)
    (hpw : ∀ k b, w.find? k = some b → b.isTop = true → ∃ x y, b.position = [.float x, .float y])
    (hpu : ∀ k b, u.find? k = some b → b.isTop = true → ∃ x y, b.position = [.float x, .float y])
    {p : Block → Bool} (h : List.Forall₂ (fun b c => Q b c ∧ c.position = b.position)
      (w.blocks.filter (·.isTop)) ((u.blocks.filter (·.isTop)).filter p))
    (hp : (∀ c, p c = true) ∨
      ∀ c ∈ u.blocks, c.isTop = true → ∀ x ∈ c.position, x.isNaN = false) :
    ∃ bs cs, w.tops = .ok bs ∧ u.tops = .ok cs ∧ List.Forall₂ Q bs (cs.filter p) := by
  obtain ⟨ss, hss, hblocks, hrank, hshows⟩ := hw.exists_row hpw
  obtain ⟨ts, hts, hblocks', hrank', hshows'⟩ := hu.exists_row hpu
  obtain ⟨sorted, hsort⟩ := Option.isSome_iff_exists.mp
    (Sorting.answers_sort Spot.answers_before fun t ht => (hshows' t ht).numbered)
  have hfilter : Sorting.sort Spot.before (ts.filter fun t => p t.block) =
      some (sorted.filter fun t => p t.block) := by
    rcases hp with hp | hn
    · simpa only [hp, List.filter_true] using hsort
    · refine Spot.sort_filter hrank' (fun t ht => (hshows' t ht).settled ?_) hsort _
      have hmem : t.block ∈ u.blocks.filter (·.isTop) := hblocks' ▸ List.mem_map_of_mem ht
      obtain ⟨hthere, htop⟩ := List.mem_filter.mp hmem
      exact hn _ hthere htop
  have hmatches : List.Forall₂ (Spot.Matches Q) ss (ts.filter fun t => p t.block) := by
    refine forall₂_matches hshows (fun t ht => hshows' t (List.mem_of_mem_filter ht)) ?_
    rw [hblocks]
    rw [← hblocks', List.filter_map] at h
    exact h
  have hsorted := Spot.rel_sort hrank (hrank'.filter _) hmatches
  rw [hfilter] at hsorted
  generalize hsort' : Sorting.sort Spot.before ss = o at hsorted
  cases hsorted with
  | @some sorted' _ hall =>
      refine ⟨_, _, tops_of_sort hss hsort', tops_of_sort hts hsort, ?_⟩
      rw [List.filter_map, List.forall₂_map_left_iff, List.forall₂_map_right_iff]
      exact hall.imp fun _ _ hst => hst.1

end Workspace

end Blockwork
