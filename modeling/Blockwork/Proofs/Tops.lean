import Mathlib.Algebra.Order.Field.Rat
import Mathlib.Data.Prod.Lex
import Mathlib.Order.WithBot
import Mathlib.Tactic.Positivity
import Blockwork.Proofs.Answering
import Blockwork.Proofs.Contents
import Blockwork.Proofs.Lasting
import Blockwork.Proofs.Magnitudes
import Blockwork.Proofs.Sorting

/-!
# Blocks at the top

The blocks that hang nowhere are found where blocks stand under their own ids and their positions
are numbers (`Workspace.Filed.exists_tops`), as in every sound workspace, also where a coordinate is
no number and cannot be compared.  Where all coordinates can be, they come from top to bottom and
from left to right, and those in one place in the order of their creation (`Workspace.Precedes`).
-/

namespace Blockwork

/-! ### The order of coordinates -/

namespace Binary64

/-- Where a number lies between the two infinities. -/
def level : Binary64 → WithBot (WithTop ℚ)
  | .nan _ => ⊥
  | .infinite s => if s then ⊥ else ((⊤ : WithTop ℚ) : WithBot (WithTop ℚ))
  | .finite s m e _ => (((numerator s m e : ℚ) / (denominator e : ℚ) : ℚ) : WithTop ℚ)

/-- Whether something is no number. -/
def isNaN : Binary64 → Bool
  | .nan _ => true
  | _ => false

theorem compare_congr {α β : Type} [LinearOrder α] [LinearOrder β] {a b : α} {c d : β}
    (hlt : a < b ↔ c < d) (hgt : b < a ↔ d < c) : compare a b = compare c d := by
  rcases lt_trichotomy a b with h | rfl | h
  · rw [compare_lt_iff_lt.mpr h, compare_lt_iff_lt.mpr (hlt.mp h)]
  · have hcd : c = d := le_antisymm (not_lt.mp fun h => lt_irrefl _ (hgt.mpr h))
      (not_lt.mp fun h => lt_irrefl _ (hlt.mpr h))
    rw [compare_eq_iff_eq.mpr rfl, compare_eq_iff_eq.mpr hcd]
  · rw [compare_gt_iff_gt.mpr h, compare_gt_iff_gt.mpr (hgt.mp h)]

theorem mul_lt_mul_iff_div_lt_div (n n' : Int) (e e' : Int) :
    n * denominator e' < n' * denominator e ↔
      (n : ℚ) / (denominator e : ℚ) < (n' : ℚ) / (denominator e' : ℚ) := by
  have hd : (0 : ℚ) < denominator e := by exact_mod_cast denominator_pos e
  have hd' : (0 : ℚ) < denominator e' := by exact_mod_cast denominator_pos e'
  rw [div_lt_div_iff₀ hd hd']
  exact_mod_cast Iff.rfl

/-- The order of numbers is that of their levels. -/
theorem compare?_eq {x y : Binary64} (hx : x.isNaN = false) (hy : y.isNaN = false) :
    x.compare? y = some (compare x.level y.level) := by
  cases x with
  | nan p => cases hx
  | infinite s =>
      cases y with
      | nan p => cases hy
      | infinite t => cases s <;> cases t <;> rfl
      | finite t k f _ =>
          cases s with
          | true => exact congrArg some (compare_lt_iff_lt.mpr (WithBot.bot_lt_coe _)).symm
          | false =>
              refine congrArg some (compare_gt_iff_gt.mpr ?_).symm
              exact WithBot.coe_lt_coe.mpr (WithTop.coe_lt_top _)
  | finite s m e _ =>
      cases y with
      | nan p => cases hy
      | infinite t =>
          cases t with
          | true => exact congrArg some (compare_gt_iff_gt.mpr (WithBot.bot_lt_coe _)).symm
          | false =>
              refine congrArg some (compare_lt_iff_lt.mpr ?_).symm
              exact WithBot.coe_lt_coe.mpr (WithTop.coe_lt_top _)
      | finite t k f _ =>
          refine congrArg some (compare_congr ?_ ?_)
          · rw [mul_lt_mul_iff_div_lt_div]
            exact (WithTop.coe_lt_coe.symm).trans WithBot.coe_lt_coe.symm
          · rw [mul_lt_mul_iff_div_lt_div]
            exact (WithTop.coe_lt_coe.symm).trans WithBot.coe_lt_coe.symm

theorem lt_iff_level {x y : Binary64} (hx : x.isNaN = false) (hy : y.isNaN = false) :
    x.lt y = true ↔ x.level < y.level := by
  rw [lt, compare?_eq hx hy, beq_iff_eq, Option.some.injEq, compare_lt_iff_lt]

theorem same_iff_level {x y : Binary64} (hx : x.isNaN = false) (hy : y.isNaN = false) :
    x.same y = true ↔ x.level = y.level := by
  rw [same, compare?_eq hx hy, beq_iff_eq, Option.some.injEq, compare_eq_iff_eq]

end Binary64

theorem Value.isNaN_float (x : Binary64) : (Value.float x).isNaN = x.isNaN := by
  cases x <;> rfl

namespace Workspace

/-! ### The order of spots -/

namespace Spot

/-- Whether a spot has numbers for coordinates. -/
def Numbered (s : Spot) : Prop := ∃ x y, s.y = .float y ∧ s.x = .float x

/-- Whether a spot can be compared with others. -/
def Settled (s : Spot) : Prop :=
  ∃ x y, s.y = .float y ∧ s.x = .float x ∧ x.isNaN = false ∧ y.isNaN = false

/-- Where a coordinate lies. -/
def levelOf : Value → WithBot (WithTop ℚ)
  | .float x => x.level
  | _ => ⊥

/-- What spots are compared by. -/
def place (s : Spot) : WithBot (WithTop ℚ) ×ₗ WithBot (WithTop ℚ) ×ₗ ℕ :=
  toLex (levelOf s.y, toLex (levelOf s.x, s.rank))

theorem precedes?_float (x y : Binary64) : (Value.float x).precedes? (.float y) = some (x.lt y) := by
  rfl

theorem answers_before : Sorting.Answers Spot.before Numbered := by
  rintro a b ⟨x, y, hy, hx⟩ ⟨x', y', hy', hx'⟩
  unfold before
  rw [hy, hy', hx, hx', precedes?_float, precedes?_float]
  split
  · rfl
  · split
    · rfl
    · rfl

theorem levels_float {x y : Binary64} (hx : x.isNaN = false) (hy : y.isNaN = false) :
    (Value.float x).levels (.float y) = decide (x.level = y.level) := by
  have hal : x.alike y = x.same y := by
    cases x with
    | nan p => cases hx
    | infinite s => rfl
    | finite s m e h => rfl
  rw [Value.levels, hal, Bool.eq_iff_iff, Binary64.same_iff_level hx hy, decide_eq_true_iff]

section

variable {a b : Spot} {x y x' y' : Binary64} (hy : a.y = .float y) (hx : a.x = .float x)
  (hy' : b.y = .float y') (hx' : b.x = .float x')

include hy hx hy' hx'

theorem place_lt_iff : a.place < b.place ↔ y.level < y'.level ∨ y.level = y'.level ∧
    (x.level < x'.level ∨ x.level = x'.level ∧ a.rank < b.rank) := by
  unfold place
  rw [hy, hy', hx, hx', Prod.Lex.toLex_lt_toLex, Prod.Lex.toLex_lt_toLex]
  exact Iff.rfl

theorem lt_of_place_le (hab : a.place ≤ b.place) (hne : a.rank ≠ b.rank)
    (hn : x.isNaN = false ∧ y.isNaN = false) (hn' : x'.isNaN = false ∧ y'.isNaN = false) :
    y.lt y' = true ∨ y.same y' = true ∧ (x.lt x' = true ∨ x.same x' = true ∧ a.rank < b.rank) := by
  have hplace : a.place ≠ b.place := fun he => hne (congrArg (fun p => (ofLex (ofLex p).2).2) he)
  rw [Binary64.lt_iff_level hn.2 hn'.2, Binary64.same_iff_level hn.2 hn'.2,
    Binary64.lt_iff_level hn.1 hn'.1, Binary64.same_iff_level hn.1 hn'.1]
  exact (place_lt_iff hy hx hy' hx').mp (lt_of_le_of_ne hab hplace)

end

/-- A spot comes before another one just when it has a lower place. -/
theorem before_eq {a b : Spot} (ha : a.Settled) (hb : b.Settled) :
    a.before b = some (decide (a.place < b.place)) := by
  obtain ⟨x, y, hy, hx, hxn, hyn⟩ := ha
  obtain ⟨x', y', hy', hx', hxn', hyn'⟩ := hb
  unfold before
  rw [decide_eq_decide.mpr (place_lt_iff hy hx hy' hx'), hy, hy', hx, hx', precedes?_float,
    precedes?_float, levels_float hyn hyn', levels_float hxn hxn']
  split
  · rename_i hne
    have hne' : y.level ≠ y'.level := by simpa using hne
    rw [Option.some.injEq, Bool.eq_iff_iff, Binary64.lt_iff_level hyn hyn', decide_eq_true_iff]
    simp [hne']
  · rename_i he
    have he' : y.level = y'.level := by simpa using he
    split
    · rename_i hne
      have hne' : x.level ≠ x'.level := by simpa using hne
      rw [Option.some.injEq, Bool.eq_iff_iff, Binary64.lt_iff_level hxn hxn', decide_eq_true_iff]
      simp [he', hne']
    · rename_i hxe
      have hxe' : x.level = x'.level := by simpa using hxe
      simp [he', hxe']

theorem compares_before :
    Sorting.Compares Spot.before (fun a b => a.place ≤ b.place) Settled where
  test ha hb := ⟨_, before_eq ha hb, by rw [decide_eq_true_iff, not_le]⟩
  trans _ _ _ hab hbc := le_trans hab hbc
  total _ _ := le_total _ _

end Spot

/-! ### The blocks at the top -/

variable {w : Workspace}

/-- Whether every position is two numbers. -/
def Placed (w : Workspace) : Prop := w.Holds fun b => ∃ x y, b.position = [.float x, .float y]

/-- Whether a block comes before another one: it is higher, or as high and further to the left, or
in the same place and was created earlier. -/
def Precedes (w : Workspace) (a b : Block) : Prop :=
  ∃ (i j : Nat) (x y x' y' : Binary64), w.blocks[i]? = some a ∧ w.blocks[j]? = some b ∧
    a.position = [.float x, .float y] ∧ b.position = [.float x', .float y'] ∧
    (y.lt y' = true ∨ y.same y' = true ∧ (x.lt x' = true ∨ x.same x' = true ∧ i < j))

/-- Whether a spot is that of a block, at its place in the order of creation. -/
structure Spot.Shows (w : Workspace) (s : Spot) : Prop where
  there : w.blocks[s.rank]? = some s.block
  placed : s.block.position = [s.x, s.y]
  numbered : s.Numbered

/-- A spot can be compared where the coordinates of its block are numbers. -/
theorem Spot.Shows.settled {s : Spot} (h : s.Shows w)
    (hn : ∀ x ∈ s.block.position, x.isNaN = false) : s.Settled := by
  obtain ⟨x, y, hy, hx⟩ := h.numbered
  have hpos := h.placed
  rw [hx, hy] at hpos
  rw [hpos] at hn
  have hxn : x.isNaN = false := Value.isNaN_float x ▸ hn _ (by simp)
  have hyn : y.isNaN = false := Value.isNaN_float y ▸ hn _ (by simp)
  exact ⟨x, y, hy, hx, hxn, hyn⟩

/-- Blocks are in order where their spots are. -/
theorem Spot.Shows.precedes {a b : Spot} (ha : a.Shows w) (hb : b.Shows w) (hsa : a.Settled)
    (hsb : b.Settled) (hab : a.place ≤ b.place) (hne : a.rank ≠ b.rank) :
    w.Precedes a.block b.block := by
  obtain ⟨x, y, hy, hx, hxn, hyn⟩ := hsa
  obtain ⟨x', y', hy', hx', hxn', hyn'⟩ := hsb
  have hpa := ha.placed
  have hpb := hb.placed
  rw [hx, hy] at hpa
  rw [hx', hy'] at hpb
  exact ⟨a.rank, b.rank, x, y, x', y', ha.there, hb.there, hpa, hpb,
    Spot.lt_of_place_le hy hx hy' hx' hab hne ⟨hxn, hyn⟩ ⟨hxn', hyn'⟩⟩

/-- Each block at the top has a spot, if blocks stand under their own ids and those at the top have
numbers for coordinates. -/
theorem Filed.exists_spots (h : w.Filed) (hp : ∀ k b, w.find? k = some b → b.isTop = true →
    ∃ x y, b.position = [.float x, .float y]) :
    ∃ spots, w.spots = .ok spots ∧ List.Forall₂ (fun e s => s.block = e.1.2 ∧ s.rank = e.2 ∧
      s.Shows w) (w.entries.zipIdx.filter (·.1.2.isTop)) spots := by
  refine exists_mapM fun e he => ?_
  obtain ⟨⟨k, b⟩, i⟩ := e
  obtain ⟨hzip, htop⟩ := List.mem_filter.mp he
  have hi := List.mk_mem_zipIdx_iff_getElem?.mp hzip
  have hf := find?_of_mem_entries (List.mem_of_getElem? hi)
  obtain ⟨j, hid, hjk⟩ := h k b hf
  obtain ⟨x, y, hxy⟩ := hp k b hf htop
  refine ⟨⟨b, .float y, .float x, i⟩, ?_, rfl, rfl, ?_, hxy, x, y, rfl, rfl⟩
  · have hrank : w.rankOf k i b.id = .ok i := by
      rw [rankOf, hid]
      exact if_pos hjk
    have hcx : coordinate b 0 = .ok (.float x) := by rw [coordinate, hxy]; rfl
    have hcy : coordinate b 1 = .ok (.float y) := by rw [coordinate, hxy]; rfl
    dsimp only
    rw [spotOf, hcx, hcy, hrank]
    rfl
  · rw [blocks, List.getElem?_map, hi]
    rfl

theorem blocks_of_zipIdx (es : List (Key × Block)) (n : Nat) :
    ((es.zipIdx n).filter (·.1.2.isTop)).map (·.1.2) = (es.map (·.2)).filter (·.isTop) := by
  induction es generalizing n with
  | nil => rfl
  | cons e es ih =>
      rw [List.zipIdx_cons, List.map_cons, List.filter_cons, List.filter_cons]
      split
      · rw [List.map_cons, ih]
      · exact ih _

/-- The blocks at the top are found, and where all positions can be compared they are in order. -/
theorem Filed.exists_tops (h : w.Filed) (hp : ∀ k b, w.find? k = some b → b.isTop = true →
    ∃ x y, b.position = [.float x, .float y]) :
    ∃ tops, w.tops = .ok tops ∧ tops.Perm (w.blocks.filter (·.isTop)) ∧
      ((∀ t ∈ tops, ∀ x ∈ t.position, x.isNaN = false) → tops.Pairwise w.Precedes) := by
  obtain ⟨spots, hs, hall⟩ := h.exists_spots hp
  have hshows : ∀ s ∈ spots, s.Shows w := fun s hs => by
    obtain ⟨e, -, -, -, he⟩ := exists_of_mem_forall₂ hall hs
    exact he
  obtain ⟨sorted, hsort⟩ := Option.isSome_iff_exists.mp
    (Sorting.answers_sort Spot.answers_before fun s hs => (hshows s hs).numbered)
  have hperm := Sorting.sort_perm hsort
  refine ⟨sorted.map (·.block), ?_, ?_, fun hn => ?_⟩
  · simp only [tops, hs, Bind.bind, Except.bind, hsort]
    rfl
  · refine (hperm.map _).trans ?_
    rw [map_eq_of_forall₂ hall fun _ _ he => he.1, blocks_of_zipIdx]
    exact .refl _
  · have hsettled : ∀ s ∈ spots, s.Settled := fun s hs =>
      (hshows s hs).settled (hn s.block (List.mem_map_of_mem (hperm.mem_iff.mpr hs)))
    obtain ⟨sorted', hsort', -, hrises⟩ := Sorting.exists_sort Spot.compares_before hsettled
    obtain rfl := Option.some.inj (hsort.symm.trans hsort')
    have hranks : (sorted.map (·.rank)).Nodup := by
      rw [(hperm.map _).nodup_iff, map_eq_of_forall₂ hall fun _ _ he => he.2.1]
      refine List.Nodup.sublist (List.filter_sublist.map _) ?_
      rw [List.zipIdx_map_snd]
      exact List.nodup_range'
    rw [List.pairwise_map]
    -- ranks are places in the order of creation, so no two spots share one
    refine (hrises.and (List.pairwise_map.mp hranks)).imp_of_mem fun {a b} ha hb hab => ?_
    have ha := hperm.mem_iff.mp ha
    have hb := hperm.mem_iff.mp hb
    exact (hshows a ha).precedes (hshows b hb) (hsettled a ha) (hsettled b hb) hab.1 hab.2

theorem Sound.filed (h : w.Sound) : w.Filed := fun k b hb => by
  obtain ⟨x, -, rfl, hid⟩ := h.named k b hb
  rw [hid]
  exact ⟨.text x, rfl, BEq.rfl⟩

/-- So it is in every sound workspace whose positions are numbers. -/
theorem Sound.exists_tops (h : w.Sound) (hp : w.Placed) :
    ∃ tops, w.tops = .ok tops ∧ tops.Perm (w.blocks.filter (·.isTop)) ∧
      ((∀ t ∈ tops, ∀ x ∈ t.position, x.isNaN = false) → tops.Pairwise w.Precedes) :=
  h.filed.exists_tops fun k b hb _ => by
    obtain ⟨x, rfl, hx⟩ := h.key_text hb
    exact hp x b hx

end Workspace

end Blockwork
