import Blockwork.Proofs.Lightening

/-!
# Results that are not rounded

A result that is half of a whole number and has no more than fifty-three bits is held as it is
(`Binary64.halves_round`).  So small whole numbers come through double precision unchanged, and so do
their sums with a half and their quotients, where these are whole: a number field finds the multiple
of its precision that it is given (`Socket.snap_mul`).
-/

namespace Blockwork

namespace Binary64

variable {x y : Binary64} {a b c i : Int}

/-- Whether a number is finite, and half of a whole number. -/
def Halves (x : Binary64) (a : Int) : Prop := ∃ n d, x.fraction? = some (n, d) ∧ n * 2 = a * d

theorem Halves.isFinite (h : x.Halves a) : x.isFinite = true := by
  obtain ⟨n, d, hx, -⟩ := h
  cases x with
  | nan n => cases hx
  | infinite s => cases hx
  | finite s m e hm => rfl

theorem halves_finite {s : Bool} {m : Nat} {e : Int} {hm : Fits m e} :
    (finite s m e hm).Halves a ↔ numerator s m e * 2 = a * denominator e := by
  constructor
  · rintro ⟨n, d, hx, h⟩
    cases hx
    exact h
  · exact fun h => ⟨_, _, rfl, h⟩

theorem halves_zero (z : Bool) : (zero z).Halves 0 :=
  halves_finite.mpr (by cases z <;> simp [numerator])

theorem halves_of_units (hx : x.isFinite = true) (h : x.units * 2 = a * scale) : x.Halves a := by
  obtain ⟨s, m, e, hm, rfl⟩ := exists_finite hx
  have hpos : (scale : Int) ≠ 0 := by exact_mod_cast Nat.pos_iff_ne_zero.mp scale_pos
  refine halves_finite.mpr (Int.eq_of_mul_eq_mul_right hpos ?_)
  calc numerator s m e * 2 * scale = numerator s m e * scale * 2 := by ring
    _ = (finite s m e hm).units * 2 * denominator e := by
        rw [numerator_mul hm]
        ring
    _ = a * denominator e * scale := by
        rw [h]
        ring

/-! ### Rounding -/

theorem isNegative_round (negative : Bool) (num den : Nat) :
    (round negative num den).isNegative = negative := by
  unfold round pack
  extract_lets
  split <;> split <;> rfl

theorem units_eq_natAbs (x : Binary64) :
    x.units = if x.isNegative then -(x.units.natAbs : Int) else x.units.natAbs := by
  cases x with
  | nan n => rfl
  | infinite s => cases s <;> rfl
  | finite s m e hm =>
      cases s with
      | true =>
          change -((m * 2 ^ (e + 1074).toNat : Nat) : Int) = -((-_ : Int).natAbs : Int)
          rw [Int.natAbs_neg, Int.natAbs_natCast]
      | false => rfl

/-- What has no more than fifty-three bits is not rounded. -/
theorem units_round_exact (negative : Bool) {num den m k : Nat}
    (h : num <<< 1075 / den = m * 2 ^ (k + 1)) (hm : m < 2 ^ 53) (hk : k ≤ 2044) :
    (round negative num den).isFinite = true ∧
      (round negative num den).units.natAbs = m * 2 ^ k := by
  have hone := one_le_excess (m * 2 ^ (k + 1))
  have hexcess : excess (m * 2 ^ (k + 1)) ≤ k + 1 := by
    refine excess_le ?_ (Nat.le_add_left 1 k)
    rw [Nat.add_comm (k + 1)]
    exact mul_two_pow_lt hm
  obtain ⟨hf, hu⟩ := natAbs_units_round negative h (by omega)
  have hdvd : 2 ^ excess (m * 2 ^ (k + 1)) ∣ m * 2 ^ (k + 1) :=
    Nat.dvd_mul_left_of_dvd (Nat.pow_dvd_pow 2 hexcess) m
  refine ⟨hf, ?_⟩
  rw [hu, roundsUp_of_mod_eq_zero (Nat.mod_eq_zero_of_dvd hdvd), Bool.toNat_false, Nat.add_zero,
    Nat.shiftRight_eq_div_pow]
  -- what is kept is all there is
  obtain ⟨q, hq⟩ := hdvd
  refine Nat.eq_of_mul_eq_mul_right (Nat.two_pos) ?_
  generalize excess (m * 2 ^ (k + 1)) = excess at *
  rw [hq, Nat.mul_div_cancel_left _ (Nat.two_pow_pos excess)]
  calc q * 2 ^ (excess - 1) * 2 = 2 ^ (excess - 1 + 1) * q := by ring
    _ = m * 2 ^ (k + 1) := by rw [Nat.sub_add_cancel hone, hq]
    _ = m * 2 ^ k * 2 := by ring

theorem exists_scale_eq : ∃ k ≤ 2044, scale = 2 ^ (k + 1) := by
  refine ⟨1073, by decide, ?_⟩
  have h := two_pow_mul_scale 0
  rwa [Nat.pow_zero, Nat.one_mul, show 0 + 1074 = 1073 + 1 from rfl] at h

/-- A half of a whole number that is not too great is not rounded. -/
theorem halves_round (negative : Bool) {num den m : Nat} (h : num * 2 = m * den) (hd : 0 < den)
    (hm : m < 2 ^ 53) : (round negative num den).Halves (if negative then -m else m) := by
  obtain ⟨k, hk, hscale⟩ := exists_scale_eq
  have hquot : num <<< 1075 / den = m * 2 ^ (k + 1) := by
    rw [shiftLeft_eq, ← hscale, Nat.mul_right_comm, h, Nat.mul_right_comm, Nat.mul_div_cancel _ hd]
  obtain ⟨hf, hu⟩ := units_round_exact negative hquot hm hk
  refine halves_of_units hf ?_
  have hdouble : ((m * 2 ^ k : Nat) : Int) * 2 = m * scale := by
    have hnat : m * 2 ^ k * 2 = m * scale := by rw [hscale, Nat.pow_succ, Nat.mul_assoc]
    exact_mod_cast hnat
  rw [units_eq_natAbs, isNegative_round, hu]
  cases negative with
  | true =>
      change -((m * 2 ^ k : Nat) : Int) * 2 = -(m : Int) * scale
      rw [Int.neg_mul, hdouble, Int.neg_mul]
  | false => exact hdouble

theorem halves_ofFraction (z : Bool) {n : Int} {d : Nat} (h : n * 2 = a * d) (hd : 0 < d)
    (ha : a.natAbs < 2 ^ 53) : (ofFraction z n d).Halves a := by
  unfold ofFraction
  split
  · rename_i hn
    have ha0 : a = 0 := by
      rw [hn, Int.zero_mul, eq_comm, Int.mul_eq_zero] at h
      exact h.resolve_right (by omega)
    subst ha0
    exact halves_zero z
  · have habs : n.natAbs * 2 = a.natAbs * d := by
      have habs := congrArg Int.natAbs h
      rwa [Int.natAbs_mul, Int.natAbs_mul, Int.natAbs_natCast] at habs
    have hsign : a < 0 ↔ n < 0 := by
      have hd' : (0 : Int) < d := by exact_mod_cast hd
      have hneg : a * d < 0 ↔ a < 0 := by
        rw [Int.mul_neg_iff]
        omega
      omega
    convert halves_round (decide (n < 0)) habs hd ha using 1
    simp only [decide_eq_true_eq, ← hsign]
    split <;> omega

/-! ### Arithmetic -/

theorem Halves.add (hx : x.Halves a) (hy : y.Halves b) (h : (a + b).natAbs < 2 ^ 53) :
    (x.add y).Halves (a + b) := by
  obtain ⟨s, m, e, hm, rfl⟩ := exists_finite hx.isFinite
  obtain ⟨t, n, f, hn, rfl⟩ := exists_finite hy.isFinite
  rw [halves_finite] at hx hy
  refine halves_ofFraction _ ?_ (Nat.mul_pos (denominator_pos e) (denominator_pos f)) h
  calc (numerator s m e * denominator f + numerator t n f * denominator e) * 2
      = numerator s m e * 2 * denominator f + numerator t n f * 2 * denominator e := by ring
    _ = (a + b) * (denominator e * denominator f : Nat) := by
        rw [hx, hy]
        push_cast
        ring

section Quotients

variable {s t : Bool} {m n : Nat} {e f : Int} {hm : Fits m e} {hn : Fits n f}

theorem shiftLeft_of_halves (h : (finite s m e hm).Halves a) :
    m <<< e.toNat * 2 = a.natAbs * denominator e := by
  have hnum : (numerator s m e).natAbs = m <<< e.toNat := by
    cases s with
    | true => exact (Int.natAbs_neg _).trans (Int.natAbs_natCast _)
    | false => exact Int.natAbs_natCast _
  have habs := congrArg Int.natAbs (halves_finite.mp h)
  rwa [Int.natAbs_mul, Int.natAbs_mul, Int.natAbs_natCast, hnum] at habs

theorem eq_zero_iff_of_halves (h : (finite s m e hm).Halves a) : m = 0 ↔ a = 0 := by
  have habs := shiftLeft_of_halves h
  rw [Nat.shiftLeft_eq] at habs
  constructor
  · rintro rfl
    rw [Nat.zero_mul, Nat.zero_mul, eq_comm, Nat.mul_eq_zero] at habs
    have := denominator_pos e
    omega
  · rintro rfl
    rw [Int.natAbs_zero, Nat.zero_mul, Nat.mul_right_comm, Nat.mul_eq_zero] at habs
    have := Nat.two_pow_pos e.toNat
    omega

theorem negative_iff_of_halves (h : (finite s m e hm).Halves a) (ha : a ≠ 0) :
    s = true ↔ a < 0 := by
  have hpos : (0 : Int) < denominator e := by exact_mod_cast denominator_pos e
  have hneg : a * denominator e < 0 ↔ a < 0 := by
    rw [Int.mul_neg_iff]
    omega
  have hne : a * denominator e ≠ 0 := Int.mul_ne_zero ha (by omega)
  rw [← hneg]
  rw [← halves_finite.mp h, numerator] at hne ⊢
  generalize m <<< e.toNat = k at hne ⊢
  cases s with
  | true =>
      rw [if_pos rfl] at hne ⊢
      exact iff_of_true rfl (by omega)
  | false =>
      rw [if_neg Bool.false_ne_true]
      exact iff_of_false Bool.false_ne_true (by omega)

/-- A quotient is negative where the signs of the two numbers differ. -/
theorem neg_iff_of_mul (ha : a ≠ 0) (h : a * 2 = c * b) : c < 0 ↔ ¬ (a < 0 ↔ b < 0) := by
  rcases Int.lt_or_gt_of_ne ha with ha | ha
  · have hneg : c * b < 0 := by omega
    rw [Int.mul_neg_iff] at hneg
    omega
  · have hneg : -c * b < 0 := by
      rw [Int.neg_mul]
      omega
    rw [Int.mul_neg_iff] at hneg
    omega

/-- The amount of a quotient before it is rounded. -/
theorem quotient_of_halves (hx : (finite s m e hm).Halves a) (hy : (finite t n f hn).Halves b)
    (h : a * 2 = c * b) : m <<< e.toNat * denominator f * 2 =
      c.natAbs * (n <<< f.toNat * denominator e) := by
  have habs : a.natAbs * 2 = c.natAbs * b.natAbs := by
    have habs := congrArg Int.natAbs h
    rwa [Int.natAbs_mul, Int.natAbs_mul] at habs
  refine Nat.eq_of_mul_eq_mul_right Nat.two_pos ?_
  calc m <<< e.toNat * denominator f * 2 * 2
      = a.natAbs * 2 * denominator e * denominator f := by
        rw [Nat.mul_right_comm _ (denominator f), shiftLeft_of_halves hx]
        ring
    _ = c.natAbs * (n <<< f.toNat * 2) * denominator e := by
        rw [habs, shiftLeft_of_halves hy]
        ring
    _ = c.natAbs * (n <<< f.toNat * denominator e) * 2 := by ring

/-- A quotient that is half of a whole number is not rounded. -/
theorem Halves.div (hx : x.Halves a) (hy : y.Halves b) (hb : b ≠ 0) (h : a * 2 = c * b)
    (hc : c.natAbs < 2 ^ 53) : (x.div y).Halves c := by
  obtain ⟨s, m, e, hm, rfl⟩ := exists_finite hx.isFinite
  obtain ⟨t, n, f, hn, rfl⟩ := exists_finite hy.isFinite
  have hn0 : n ≠ 0 := fun hn0 => hb ((eq_zero_iff_of_halves hy).mp hn0)
  change (if n = 0 then _ else if m = 0 then _ else round _ _ _ : Binary64).Halves _
  rw [if_neg hn0]
  split
  · rename_i hm0
    rw [(eq_zero_iff_of_halves hx).mp hm0, Int.zero_mul, eq_comm, Int.mul_eq_zero] at h
    rw [h.resolve_right hb]
    exact halves_zero _
  · rename_i hm0
    have ha : a ≠ 0 := fun ha => hm0 ((eq_zero_iff_of_halves hx).mpr ha)
    have hpos : 0 < n <<< f.toNat * denominator e := by
      rw [Nat.shiftLeft_eq]
      exact Nat.mul_pos (Nat.mul_pos (Nat.pos_iff_ne_zero.mpr hn0) (Nat.two_pow_pos _))
        (denominator_pos e)
    have hsign : (s != t) = true ↔ c < 0 := by
      rw [neg_iff_of_mul ha h, ← negative_iff_of_halves hx ha,
        ← negative_iff_of_halves hy hb]
      cases s <;> cases t <;> decide
    convert halves_round (s != t) (quotient_of_halves hx hy h) hpos hc using 1
    simp only [hsign]
    split <;> omega

end Quotients

/-! ### Whole numbers -/

/-- The whole part of half of an odd number. -/
theorem Halves.floor (hx : x.Halves (2 * i + 1)) : (Number.float x).floor = .ok i := by
  obtain ⟨s, m, e, hm, rfl⟩ := exists_finite hx.isFinite
  rw [halves_finite] at hx
  have hpos : (0 : Int) < denominator e := by exact_mod_cast denominator_pos e
  have hfloor : numerator s m e / denominator e = i := by
    rw [Int.add_mul, Int.one_mul, Int.mul_assoc] at hx
    rw [Int.ediv_eq_iff_of_pos hpos]
    omega
  exact congrArg Except.ok hfloor

theorem exists_halves_ofInt (hi : i.natAbs < 2 ^ 52) :
    ∃ y, Number.ofInt i = .ok y ∧ y.Halves (2 * i) := by
  have hhalves : (ofFraction false i 1).Halves (2 * i) :=
    halves_ofFraction false (by ring) Nat.one_pos (by omega)
  refine ⟨_, ?_, hhalves⟩
  unfold Number.ofInt ofInt?
  cases h : ofFraction false i 1 with
  | infinite s => exact nomatch (h ▸ hhalves).isFinite
  | nan n => rfl
  | finite s m e hm => rfl

theorem halves_half : (Decimal.value false 5 (-1)).Halves 1 := by
  have hfraction : (Decimal.value false 5 (-1)).fraction? = some (2 ^ 52, 2 ^ 53) := by
    decide +kernel
  exact ⟨_, _, hfraction, by decide⟩

end Binary64

theorem Value.isTruthy_of_pos {p : Int} (hp : 0 < p) : (Value.int p).isTruthy = true := by
  have hp0 : p ≠ 0 := by omega
  simpa [isTruthy] using hp0

/-- A number field keeps a small multiple of its precision. -/
theorem Socket.snap_mul {p j : Int} {x : Binary64} (hp : 0 < p) (hsmall : p.natAbs < 2 ^ 52)
    (hj : j.natAbs < 2 ^ 52) (hx : x.Halves (2 * (j * p))) :
    snap (.int p) x = .ok (.int (j * p)) := by
  obtain ⟨y, hy, hhalves⟩ := Binary64.exists_halves_ofInt hsmall
  have hquotient : (x.div y).Halves (2 * j) := hx.div hhalves (by omega) (by ring) (by omega)
  have hsum := hquotient.add Binary64.halves_half (by omega)
  have hstep : (Number.int p).toFloat = .ok y := hy
  have hnumber : (Value.int p).toNumber = .ok (.int p) := rfl
  unfold snap
  rw [if_pos (Value.isTruthy_of_pos hp), hnumber]
  simp only [Bind.bind, Except.bind, hstep, hsum.floor]
  rfl

end Blockwork
