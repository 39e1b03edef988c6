import Blockwork.Proofs.Exactness
import Blockwork.Proofs.Nearest
import Blockwork.Proofs.Typing

/-!
# Hues

A hue given in whole degrees, however many turns and in whichever direction, is kept as one of the
whole degrees of a turn (`Binary64.Halves.modulo_fullTurn`): its remainder is a fraction whose value
is whole, and what is rounded is that value (`Binary64.ofFraction_eq`).  So a hue that has been kept
once is kept ever after (`Binary64.IsIntegral.modulo_modulo_fullTurn`).  Of other numbers this is not
so: one just below zero is kept as a full turn, and a full turn as zero.
-/

namespace Blockwork

open Declaration (fullTurn)

namespace Binary64

open Rgb (whole)

variable {i j : Int} {x y : Binary64}

/-- A fraction whose value is whole is rounded as that value. -/
theorem ofFraction_eq {n : Int} {d : Nat} (h : n = i * d) (hd : 0 < d) (zeroNegative : Bool) :
    ofFraction zeroNegative n d = ofFraction zeroNegative i 1 := by
  have hpos : (0 : Int) < d := by exact_mod_cast hd
  have hzero : n = 0 ↔ i = 0 := by rw [h, Int.mul_eq_zero, or_iff_left hpos.ne']
  have hneg : n < 0 ↔ i < 0 := by rw [h, mul_neg_iff]; omega
  have hround (negative : Bool) : round negative n.natAbs d = round negative i.natAbs 1 :=
    round_congr hd Nat.one_pos (by rw [h, Int.natAbs_mul, Int.natAbs_natCast, Nat.mul_one])
  unfold ofFraction
  simp only [hzero, hneg, hround]

theorem ofFraction_one (hi : 0 < i) (zeroNegative : Bool) :
    ofFraction zeroNegative i 1 = whole i.toNat := by
  rw [ofFraction, if_neg hi.ne', decide_eq_false (by omega),
    show i.natAbs = i.toNat by omega]
  rfl

/-! ### Whole numbers -/

theorem halves_whole {k : Nat} (hk : k < 2 ^ 52) : (whole k).Halves (2 * k) := by
  have h := halves_round false (show k * 2 = (2 * k) * 1 by omega) Nat.one_pos (by omega)
  rwa [if_neg Bool.false_ne_true, Nat.cast_mul, Nat.cast_ofNat] at h

theorem numerator_of_halves {s : Bool} {m : Nat} {e : Int} {hm : Fits m e}
    (h : (finite s m e hm).Halves (2 * i)) : numerator s m e = i * denominator e := by
  rw [halves_finite, Int.mul_comm 2, Int.mul_right_comm] at h
  exact Int.eq_of_mul_eq_mul_right (by decide) h

/-- The sum of whole numbers is rounded as a whole number. -/
theorem Halves.add_whole (hx : x.Halves (2 * i)) (hy : y.Halves (2 * j)) :
    x.add y = ofFraction (x.isNegative && y.isNegative) (i + j) 1 := by
  obtain ⟨s, m, e, hm, rfl⟩ := exists_finite hx.isFinite
  obtain ⟨t, n, f, hn, rfl⟩ := exists_finite hy.isFinite
  refine ofFraction_eq ?_ (Nat.mul_pos (denominator_pos e) (denominator_pos f)) _
  rw [numerator_of_halves hx, numerator_of_halves hy]
  push_cast
  ring

/-- So is the remainder of whole numbers, before it is brought to the sign of the divisor. -/
theorem Halves.modulo_whole (hx : x.Halves (2 * i)) (hy : y.Halves (2 * j)) (hj : j ≠ 0) :
    x.modulo y = if i.tmod j = 0 then zero y.isNegative
      else if decide (i.tmod j < 0) = y.isNegative then ofFraction x.isNegative (i.tmod j) 1
      else (ofFraction x.isNegative (i.tmod j) 1).add y := by
  obtain ⟨s, m, e, hm, rfl⟩ := exists_finite hx.isFinite
  obtain ⟨t, n, f, hn, rfl⟩ := exists_finite hy.isFinite
  have hn0 : n ≠ 0 := fun hn0 => hj (by have := (eq_zero_iff_of_halves hy).mp hn0; omega)
  have hc : 0 < denominator e * denominator f :=
    Nat.mul_pos (denominator_pos e) (denominator_pos f)
  have hpos : (0 : Int) < (denominator e * denominator f : Nat) := by exact_mod_cast hc
  -- over the common denominator both numbers are multiples of it, and so is what is left
  have hrest : (numerator s m e * denominator f).tmod (numerator t n f * denominator e) =
      i.tmod j * (denominator e * denominator f : Nat) := by
    rw [numerator_of_halves hx, numerator_of_halves hy,
      show i * denominator e * denominator f =
        (denominator e * denominator f : Nat) * i by push_cast; ring,
      show j * denominator f * denominator e =
        (denominator e * denominator f : Nat) * j by push_cast; ring,
      Int.mul_tmod_mul_of_pos _ _ hpos, Int.mul_comm]
  have hzero : i.tmod j * (denominator e * denominator f : Nat) = 0 ↔ i.tmod j = 0 := by
    rw [Int.mul_eq_zero, or_iff_left hpos.ne']
  have hneg : i.tmod j * (denominator e * denominator f : Nat) < 0 ↔ i.tmod j < 0 := by
    rw [mul_neg_iff]
    omega
  rw [modulo, if_neg hn0]
  simp only [hrest, hzero, hneg, ofFraction_eq rfl hc]
  rfl

/-! ### Degrees -/

theorem fullTurn_eq : fullTurn = whole 360 := by decide +kernel

/-- **Whole degrees, as many as there are, are kept as one of the degrees of a turn.** -/
theorem Halves.modulo_fullTurn (hx : x.Halves (2 * i)) :
    x.modulo fullTurn = whole (i % 360).toNat := by
  have hturn : (whole 360).Halves (2 * 360) := halves_whole (by decide)
  have hsign : (whole 360).isNegative = false := isNegative_round ..
  have hlt : (i.tmod 360).natAbs < 360 := by
    rw [Int.natAbs_tmod]
    exact Nat.mod_lt _ (by decide)
  have hmod : i % 360 = if i.tmod 360 < 0 then i.tmod 360 + 360 else i.tmod 360 := by
    rw [Int.tmod_eq_emod]
    split <;> split <;> omega
  rw [fullTurn_eq, hx.modulo_whole hturn (by decide), hsign, hmod]
  generalize i.tmod 360 = r at hlt
  rcases Int.lt_trichotomy r 0 with hr | rfl | hr
  · have hrest (z : Bool) : (ofFraction z r 1).Halves (2 * r) :=
      halves_ofFraction z (by ring) Nat.one_pos (by omega)
    rw [if_neg hr.ne, decide_eq_true hr, if_neg Bool.true_eq_false.mp, if_pos hr,
      (hrest _).add_whole hturn, ofFraction_one (by omega)]
  · rfl
  · rw [if_neg hr.ne', decide_eq_false (by omega), if_pos rfl, if_neg (by omega),
      ofFraction_one hr]

/-- Whether a number is finite and whole. -/
def IsIntegral (x : Binary64) : Prop := ∃ i : Int, x.Halves (2 * i)

/-- The degrees that are kept of a whole number are kept as they are. -/
theorem IsIntegral.modulo_modulo_fullTurn (h : x.IsIntegral) :
    (x.modulo fullTurn).modulo fullTurn = x.modulo fullTurn := by
  obtain ⟨i, hx⟩ := h
  have hlt : (i % 360).toNat < 2 ^ 52 := by omega
  rw [hx.modulo_fullTurn, (halves_whole hlt).modulo_fullTurn, Int.toNat_of_nonneg (by omega),
    Int.emod_emod_of_dvd _ (by decide)]

theorem IsIntegral.neg (h : x.IsIntegral) : x.neg.IsIntegral := by
  obtain ⟨i, hx⟩ := h
  obtain ⟨s, m, e, hm, rfl⟩ := exists_finite hx.isFinite
  refine ⟨-i, halves_finite.mpr ?_⟩
  have hneg : numerator (!s) m e = -numerator s m e := by cases s <;> simp [numerator]
  rw [hneg, numerator_of_halves hx]
  ring

theorem IsWhole.isIntegral (h : x.IsWhole) : x.IsIntegral := by
  obtain ⟨n, hn⟩ := h
  cases x with
  | finite s m e hm =>
      simp only [toInt?, fraction?] at hn
      split at hn
      · rename_i hmod
        refine ⟨_, halves_finite.mpr (?_ : _ = 2 * (numerator s m e / denominator e) * _)⟩
        rw [Int.mul_assoc, Int.ediv_mul_cancel (Int.dvd_of_emod_eq_zero hmod), Int.mul_comm]
      · cases hn
  | nan _ => cases hn
  | infinite _ => cases hn

/-- What a whole number is rounded to is whole. -/
theorem isIntegral_of_ofInt? (h : ofInt? i = some x) : x.IsIntegral := by
  by_cases hi : 0 ≤ i
  · exact (isWhole_of_ofInt? hi h).isIntegral
  · have hround : ofFraction false i 1 = round true i.natAbs 1 := by
      rw [ofFraction, if_neg (by omega), decide_eq_true (by omega)]
    unfold ofInt? at h
    rw [hround, ← neg_round] at h
    rcases isWhole_round i.natAbs with hinf | hwhole
    · rw [hinf] at h
      cases h
    · split at h
      · cases h
      · exact Option.some.inj h ▸ hwhole.isIntegral.neg

end Binary64

end Blockwork
