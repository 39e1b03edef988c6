import Blockwork.Number.Decimal
import Blockwork.Proofs.Nearest

/-!
# Shortest numerals

The numeral that a number is written with reads back as the number (`Decimal.value_shortest`).
Seventeen digits are always enough: one of the two neighbours that have so many is then nearer than
by one part in `2^54` (`Decimal.exists_neighbour`).  That there are seventeen rests on the power of
ten that the search sets out from, which is not above the number
(`Decimal.above_start_le`).
-/

namespace Blockwork.Decimal

open Binary64 (Fits denominator denominator_pos)

variable {negative : Bool} {n n' m num den : Nat} {e p p' s : Int}

/-! ### Values -/

theorem above_pos (p : Int) : 0 < above p := Nat.pow_pos (by decide)

theorem below_pos (p : Int) : 0 < below p := Nat.pow_pos (by decide)

/-- Numerals in range are rounded. -/
theorem value_eq_round (hn : n ≠ 0) (hp : p ≤ 400) (hl : -400 ≤ p + n.log2) :
    value negative n p = .round negative (n * above p) (below p) := by
  rw [value, if_neg hn, if_neg (by omega), if_neg (by omega)]

/-- Numerals in range of one value are read alike. -/
theorem value_congr (hn : n ≠ 0) (hn' : n' ≠ 0) (hp : p ≤ 400) (hp' : p' ≤ 400)
    (hl : -400 ≤ p + n.log2) (hl' : -400 ≤ p' + n'.log2)
    (h : n * above p * below p' = n' * above p' * below p) :
    value negative n p = value negative n' p' := by
  rw [value_eq_round hn hp hl, value_eq_round hn' hp' hl']
  exact Binary64.round_congr (below_pos p) (below_pos p') h

/-- Zeros at the end of a coefficient count for the power of ten. -/
theorem value_shift (k : Nat) (hn : n ≠ 0) (hp : p ≤ 400) (hp' : p - k ≤ 400)
    (hl : -400 ≤ p - k + n.log2) :
    value negative (n * 10 ^ k) (p - k) = value negative n p := by
  have hk : 10 ^ k ≠ 0 := (Nat.pow_pos (by decide)).ne'
  have hlog : n.log2 ≤ (n * 10 ^ k).log2 := by
    rw [Nat.le_log2 (Nat.mul_ne_zero hn hk)]
    exact (Nat.log2_self_le hn).trans (Nat.le_mul_of_pos_right n (Nat.pos_of_ne_zero hk))
  refine value_congr (Nat.mul_ne_zero hn hk) hn hp' hp (by omega) (by omega) ?_
  have hpow : 10 ^ k * above (p - k) * below p = above p * below (p - k) := by
    simp only [above, below, Nat.pow_eq]
    rw [← Nat.pow_add, ← Nat.pow_add, ← Nat.pow_add]
    congr 1
    omega
  rw [Nat.mul_assoc n, Nat.mul_assoc n, hpow, Nat.mul_assoc]

theorem neg_value (n : Nat) (p : Int) : (value false n p).neg = value true n p := by
  unfold value
  split
  · rfl
  · split
    · rfl
    · split
      · rfl
      · exact Binary64.neg_round _ _

/-! ### The power of ten -/

/-- Where the search for a power of ten above a fraction sets out from one that is not too great, it
finds the least. -/
theorem magnitude_spec (num den : Nat) (start : Int) (tries : Nat)
    (h : den * above (start - 1) ≤ num * below (start - 1)) :
    den * above (magnitude num den start tries - 1) ≤
        num * below (magnitude num den start tries - 1) ∧
      start ≤ magnitude num den start tries ∧ magnitude num den start tries ≤ start + tries := by
  induction tries generalizing start with
  | zero => exact ⟨h, le_refl _, Int.le_add_of_nonneg_right (le_refl _)⟩
  | succ tries ih =>
      rw [magnitude]
      split
      · exact ⟨h, le_refl _, by omega⟩
      · rename_i hmore
        have hnext := ih (start + 1) (by rw [Int.add_sub_cancel]; exact Nat.le_of_not_lt hmore)
        exact ⟨hnext.1, by omega, by omega⟩

/-- A power of two that is not too great has about as many decimal digits as it has bits, times a
constant. -/
theorem pow_ten_le_pow_two : ∀ l < 1024, 10 ^ (l * 30103 / 100000 - 2) ≤ 2 ^ l := by
  decide +kernel

theorem pow_two_le_pow_ten : ∀ l < 1075, 2 ^ l ≤ 10 ^ ((l * 30103 + 99999) / 100000 + 2) := by
  decide +kernel

/-- The search for the least power of ten above a number sets out from one that is not too great. -/
theorem above_start_le (h : Fits m e) (hm : m ≠ 0) :
    denominator e * above (((m.log2 : Int) + e) * 30103 / 100000 - 1 - 1) ≤
      m <<< e.toNat * below (((m.log2 : Int) + e) * 30103 / 100000 - 1 - 1) := by
  have hlog : m.log2 < 53 := (Nat.log2_lt hm).mpr h.lt
  have hleast := h.least
  have hgreatest := h.greatest
  have hself := Nat.log2_self_le hm
  rw [Nat.shiftLeft_eq, denominator, Nat.one_shiftLeft]
  simp only [above, below, Nat.pow_eq]
  refine le_trans ?_ (Nat.mul_le_mul_right _ (Nat.mul_le_mul_right _ hself))
  rw [← Nat.pow_add]
  rcases Int.le_total 0 (m.log2 + e) with hpos | hneg
  · obtain ⟨l, hl⟩ := Int.eq_ofNat_of_zero_le hpos
    rw [hl]
    have hten : (((l : Int) * 30103 / 100000 - 1 - 1).toNat) = l * 30103 / 100000 - 2 := by omega
    rw [hten]
    calc 2 ^ (-e).toNat * 10 ^ (l * 30103 / 100000 - 2) ≤ 2 ^ (-e).toNat * 2 ^ l :=
          Nat.mul_le_mul_left _ (pow_ten_le_pow_two l (by omega))
      _ = 2 ^ (m.log2 + e.toNat) := by rw [← Nat.pow_add]; congr 1; omega
      _ ≤ _ := Nat.le_mul_of_pos_right _ (Nat.pow_pos (by decide))
  · obtain ⟨l, hl⟩ := Int.eq_ofNat_of_zero_le (Int.neg_nonneg.mpr hneg)
    rw [show (m.log2 : Int) + e = -l by omega]
    have hten : (-(-(l : Int) * 30103 / 100000 - 1 - 1)).toNat =
        (l * 30103 + 99999) / 100000 + 2 := by omega
    have hzero : (-(l : Int) * 30103 / 100000 - 1 - 1).toNat = 0 := by omega
    rw [hten, hzero, Nat.pow_zero, Nat.mul_one]
    calc 2 ^ (-e).toNat = 2 ^ (m.log2 + e.toNat) * 2 ^ l := by rw [← Nat.pow_add]; congr 1; omega
      _ ≤ _ := Nat.mul_le_mul_left _ (pow_two_le_pow_ten l (by omega))

/-- Where the power of ten above a number is put. -/
theorem magnitudeOf_spec (h : Fits m e) (hm : m ≠ 0) :
    denominator e * above (magnitudeOf m e - 1) ≤ m <<< e.toNat * below (magnitudeOf m e - 1) ∧
      -326 ≤ magnitudeOf m e ∧ magnitudeOf m e ≤ 320 := by
  have hlog : m.log2 < 53 := (Nat.log2_lt hm).mpr h.lt
  have hleast := h.least
  have hgreatest := h.greatest
  obtain ⟨hspec, hge, hle⟩ := magnitude_spec _ _ _ 4 (above_start_le h hm)
  exact ⟨hspec, le_trans (by omega) hge, hle.trans (by omega)⟩

/-! ### Neighbours -/

theorem value_of_neighbour {x : Binary64} {c : Nat} (h : neighbour x num den s = some c) :
    value false c s = x := by
  unfold neighbour at h
  extract_lets n d q reads twice at h
  have hreads {c : Nat} (hc : reads c = true) : value false c s = x := of_decide_eq_true hc
  split at h
  · cases h
  · rename_i hq _
    exact Option.some.inj h ▸ hreads hq
  · rename_i _ hq
    exact Option.some.inj h ▸ hreads hq
  · rename_i hq hq'
    split at h
    · exact Option.some.inj h ▸ hreads hq
    · split at h
      · exact Option.some.inj h ▸ hreads hq'
      · split at h
        · exact Option.some.inj h ▸ hreads hq
        · exact Option.some.inj h ▸ hreads hq'

theorem neighbour_ne_none {x : Binary64}
    (h : value false (num * below s / (den * above s)) s = x ∨
      value false (num * below s / (den * above s) + 1) s = x) : neighbour x num den s ≠ none := by
  unfold neighbour
  extract_lets n d q reads twice
  have hreads : reads q = true ∨ reads (q + 1) = true := h.imp decide_eq_true decide_eq_true
  split
  · rename_i hq hq'
    rw [hq, hq'] at hreads
    simp at hreads
  · exact Option.some_ne_none _
  · exact Option.some_ne_none _
  · split
    · exact Option.some_ne_none _
    · split
      · exact Option.some_ne_none _
      · split
        · exact Option.some_ne_none _
        · exact Option.some_ne_none _

/-- **One of the neighbours with seventeen digits reads back.** -/
theorem exists_neighbour (h : Fits m e)
    (hbig : denominator e * above s * 10 ^ 16 ≤ m <<< e.toNat * below s) (hs : s ≤ 400)
    (hs' : -450 ≤ s) :
    neighbour (.finite false m e h) (m <<< e.toNat) (denominator e) s ≠ none := by
  have hd : 0 < denominator e * above s := Nat.mul_pos (denominator_pos e) (above_pos s)
  refine neighbour_ne_none ?_
  have hreads {c : Nat} (hc : 10 ^ 16 ≤ c)
      (habove : m <<< e.toNat * below s * 2 ^ 54 <
        denominator e * above s * c * 2 ^ 54 + m <<< e.toNat * below s)
      (hbelow : denominator e * above s * c * 2 ^ 54 <
        m <<< e.toNat * below s * 2 ^ 54 + m <<< e.toNat * below s) :
      value false c s = .finite false m e h := by
    have hc0 : c ≠ 0 := by
      rintro rfl
      exact absurd hc (by decide)
    have hlog : 50 ≤ c.log2 := (Nat.le_log2 hc0).mpr (le_trans (by decide) hc)
    rw [value_eq_round hc0 hs (by omega)]
    have hmul : c * above s * denominator e = denominator e * above s * c := by ring
    exact Binary64.round_near h (below_pos s)
      ⟨by simpa only [hmul] using habove, by simpa only [hmul] using hbelow⟩
  have hq : 10 ^ 16 ≤ m <<< e.toNat * below s / (denominator e * above s) :=
    (Nat.le_div_iff_mul_le hd).mpr (by rwa [Nat.mul_comm])
  have hsplit := Nat.div_add_mod (m <<< e.toNat * below s) (denominator e * above s)
  have hrest := Nat.mod_lt (m <<< e.toNat * below s) hd
  generalize m <<< e.toNat * below s / (denominator e * above s) = q at *
  generalize m <<< e.toNat * below s % (denominator e * above s) = r at *
  generalize m <<< e.toNat * below s = n at *
  generalize denominator e * above s = d at *
  rcases Nat.le_total (2 * r) d with hnear | hfar
  · exact .inl (hreads hq (by omega) (by omega))
  · refine .inr (hreads (Nat.le_succ_of_le hq) ?_ ?_)
    · rw [Nat.mul_succ]
      omega
    · rw [Nat.mul_succ]
      omega

/-! ### The search -/

/-- A search that comes to an end at seventeen digits at the latest finds a numeral that reads
back. -/
theorem value_search {x : Binary64} {p : Int} (hp : -326 ≤ p) (hp' : p ≤ 320)
    (hlast : neighbour x num den (p - 17) ≠ none) (more : Nat) (hmore : more ≤ 16) :
    value false (search x num den p (17 - more) (more + 1)).coefficient
      (search x num den p (17 - more) (more + 1)).scale = x := by
  have hfound {count c : Nat} (hcount : count ≤ 17)
      (hc : neighbour x num den (p - count) = some c) :
      let n : Numeral := if c = 10 then ⟨1, p - count + 1⟩ else ⟨c, p - count⟩
      value false n.coefficient n.scale = x := by
    have hreads := value_of_neighbour hc
    dsimp only
    split
    · rename_i hten
      rw [hten] at hreads
      have hone : value false (1 * 10 ^ 1) (p - count + 1 - (1 : Nat)) =
          value false 1 (p - count + 1) :=
        value_shift 1 Nat.one_ne_zero (by omega) (by omega) (by omega)
      simpa using hone.symm.trans (by simpa using hreads)
    · exact hreads
  induction more with
  | zero =>
      rw [search]
      split
      · rename_i c hc
        exact hfound (Nat.sub_le ..) hc
      · rename_i hnone
        exact absurd hnone hlast
  | succ more ih =>
      rw [search]
      split
      · rename_i c hc
        exact hfound (Nat.sub_le ..) hc
      · rw [show 17 - (more + 1) + 1 = 17 - more by omega]
        exact ih (by omega)

/-- **The shortest numeral of a number reads back as the number.** -/
theorem value_shortest (h : Fits m e) (hm : m ≠ 0) :
    value false (shortest m e h).coefficient (shortest m e h).scale = .finite false m e h := by
  obtain ⟨hbig, hge, hle⟩ := magnitudeOf_spec h hm
  refine value_search hge hle (exists_neighbour h ?_ (by omega) (by omega)) 16 (le_refl _)
  have hshift : above (magnitudeOf m e - 17) * 10 ^ 16 * below (magnitudeOf m e - 1) =
      above (magnitudeOf m e - 1) * below (magnitudeOf m e - 17) := by
    simp only [above, below, Nat.pow_eq]
    rw [← Nat.pow_add, ← Nat.pow_add, ← Nat.pow_add]
    congr 1
    omega
  refine Nat.le_of_mul_le_mul_right ?_ (below_pos (magnitudeOf m e - 1))
  calc denominator e * above (magnitudeOf m e - 17) * 10 ^ 16 * below (magnitudeOf m e - 1) =
        denominator e * above (magnitudeOf m e - 1) * below (magnitudeOf m e - 17) := by
          rw [Nat.mul_assoc (denominator e), Nat.mul_assoc (denominator e), hshift, Nat.mul_assoc]
    _ ≤ m <<< e.toNat * below (magnitudeOf m e - 1) * below (magnitudeOf m e - 17) :=
          Nat.mul_le_mul_right _ hbig
    _ = m <<< e.toNat * below (magnitudeOf m e - 17) * below (magnitudeOf m e - 1) :=
          Nat.mul_right_comm ..

end Blockwork.Decimal
