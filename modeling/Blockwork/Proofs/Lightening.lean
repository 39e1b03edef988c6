import Blockwork.Colour.Shade
import Blockwork.Proofs.Magnitudes
import Mathlib.Tactic.Ring

/-!
# Lightening

Every colour can be lightened, whatever the policy and the whole number by which channels are raised
(`Shade.exists_lightenText`).  What could stand in the way is the hue of a colour, which is computed
in double precision: its sums, products and quotients have to stay finite.  A finite number is a
whole number of the least positive one (`Binary64.units`), and an operation that rounds changes this
whole number by no more than a factor (`Binary64.units_round`), so that nothing grows beyond all
bounds as long as nothing is divided by too little.
-/

namespace Blockwork

namespace Binary64

variable {x y : Binary64} {k l : Nat}

/-! ### Units -/

/-- How many times the least positive number makes the amount of a finite number. -/
def units : Binary64 → Int
  | .finite s m e _ =>
    let n : Int := (m * 2 ^ (e + 1074).toNat : Nat)
    if s then -n else n
  | _ => 0

/-- How many times the least positive number makes one. -/
def scale : Nat := 2 ^ 1074

/-- Whether a number is finite and its amount at most a power of two. -/
def Below (k : Nat) (x : Binary64) : Prop :=
  x.isFinite = true ∧ x.units.natAbs ≤ 2 ^ k * scale

theorem scale_pos : 0 < scale := by
  have hpos (k : Nat) : 0 < 2 ^ k := Nat.two_pow_pos k
  exact hpos 1074

theorem two_pow_mul_scale (k : Nat) : 2 ^ k * scale = 2 ^ (k + 1074) := by
  unfold scale
  rw [Nat.pow_add]

theorem scale_eq {k : Nat} (hk : k ≤ 1074) : scale = 2 ^ k * 2 ^ (1074 - k) := by
  unfold scale
  rw [← Nat.pow_add, Nat.add_sub_cancel' hk]

theorem shiftLeft_eq (n : Nat) : n <<< 1075 = n * scale * 2 := by
  have hshift (k : Nat) : n <<< (k + 1) = n * 2 ^ k * 2 := by
    rw [Nat.shiftLeft_eq, Nat.pow_succ, Nat.mul_assoc]
  exact hshift 1074

-- what follows goes by these facts, and never by the number itself
attribute [irreducible] scale

theorem Below.mono (h : x.Below k) (hk : k ≤ l) : x.Below l :=
  ⟨h.1, Nat.le_trans h.2 (Nat.mul_le_mul_right _ (Nat.pow_le_pow_right (by decide) hk))⟩

theorem below_zero (s : Bool) : (zero s).Below k := by
  refine ⟨rfl, ?_⟩
  cases s <;> exact Nat.zero_le _

theorem units_neg (x : Binary64) : x.neg.units = -x.units := by
  cases x with
  | nan n => rfl
  | infinite s => rfl
  | finite s m e h => cases s <;> simp [units, neg]

theorem Below.neg (h : x.Below k) : x.neg.Below k := by
  refine ⟨?_, by rw [units_neg, Int.natAbs_neg]; exact h.2⟩
  cases x with
  | nan n => exact h.1
  | infinite s => exact h.1
  | finite s m e hf => rfl

/-- The units of a finite number as a fraction. -/
theorem numerator_mul {s : Bool} {m : Nat} {e : Int} (h : Fits m e) :
    numerator s m e * scale = (finite s m e h).units * denominator e := by
  have hexp : e.toNat + 1074 = (e + 1074).toNat + (-e).toNat := by
    have := h.least
    omega
  have hnat : m * 2 ^ e.toNat * scale = m * 2 ^ (e + 1074).toNat * 2 ^ (-e).toNat := by
    rw [Nat.mul_assoc, two_pow_mul_scale, hexp, Nat.pow_add, Nat.mul_assoc]
  have hint : ((m * 2 ^ e.toNat : Nat) : Int) * scale =
      (m * 2 ^ (e + 1074).toNat : Nat) * (2 ^ (-e).toNat : Nat) := by
    exact_mod_cast hnat
  unfold numerator denominator units
  rw [Nat.shiftLeft_eq, Nat.one_shiftLeft]
  cases s with
  | false => exact hint
  | true =>
      change -((m * 2 ^ e.toNat : Nat) : Int) * scale = -_ * _
      rw [Int.neg_mul, hint, Int.neg_mul]

/-! ### Rounding -/

theorem units_pack (negative : Bool) {m : Nat} {e : Int} (le least full) (he : e + 1 ≤ 971) :
    (pack negative m e le least full).isFinite = true ∧
      (pack negative m e le least full).units.natAbs = m * 2 ^ (e + 1074).toNat := by
  have natAbs_units (m : Nat) (e : Int) (h : Fits m e) :
      (finite negative m e h).units.natAbs = m * 2 ^ (e + 1074).toNat := by
    unfold units
    cases negative with
    | false => exact Int.natAbs_natCast _
    | true => exact (Int.natAbs_neg _).trans (Int.natAbs_natCast _)
  unfold pack
  by_cases hm : m = 0x20000000000000
  · rw [dif_pos hm, dif_pos he, natAbs_units]
    have hexp : (e + 1 + 1074).toNat = (e + 1074).toNat + 1 := by omega
    rw [hexp, hm, Nat.pow_succ]
    exact ⟨rfl, by omega⟩
  · rw [dif_neg hm, dif_pos (by omega), natAbs_units]
    exact ⟨rfl, rfl⟩

theorem lt_excess {n : Nat} (h : 2 ^ (k + 53) ≤ n) : k < excess n := by
  have hn : n ≠ 0 := Nat.pos_iff_ne_zero.mp (Nat.lt_of_lt_of_le (Nat.two_pow_pos _) h)
  have hlog := (Nat.le_log2 hn).mpr h
  unfold excess
  omega

/-- What is kept of a number that is rounded, in units. -/
theorem natAbs_units_round (negative : Bool) {num den n : Nat} (hn : num <<< 1075 / den = n)
    (h : excess n ≤ 2045) : (round negative num den).isFinite = true ∧
      (round negative num den).units.natAbs =
        (n >>> excess n + (roundsUp n (num <<< 1075 % den != 0)).toNat) * 2 ^ (excess n - 1) := by
  subst hn
  unfold round
  extract_lets n up m
  change excess n ≤ _ at h
  have hone := one_le_excess n
  have hle : m ≤ 0x20000000000000 := by
    have := shiftRight_excess_lt n
    have := Bool.toNat_le up
    omega
  have hfull : 0x10000000000000 ≤ m ∨ (excess n : Int) - 1075 = -1074 := by
    by_cases hx : excess n = 1
    · exact .inr (by omega)
    · exact .inl (Nat.le_trans (le_shiftRight_excess n hx) (Nat.le_add_right ..))
  obtain ⟨hf, hu⟩ := units_pack negative hle (by omega) hfull (by omega)
  refine ⟨hf, ?_⟩
  rw [hu, show ((excess n : Int) - 1075 + 1074).toNat = excess n - 1 by omega]

/-- What is rounded stays within a factor of what it was, and loses its last bits. -/
theorem units_round (negative : Bool) {num den : Nat}
    (h : num <<< 1075 / den ≤ 2 ^ (k + 1) * scale) (hk : k ≤ 900) :
    (round negative num den).isFinite = true ∧
      (round negative num den).units.natAbs ≤ num <<< 1075 / den + 1 ∧
      num <<< 1075 / den ≤ 4 * (round negative num den).units.natAbs + 1 ∧
      2 ^ (excess (num <<< 1075 / den) - 1) ∣ (round negative num den).units.natAbs := by
  generalize hn : num <<< 1075 / den = n at h
  have hone := one_le_excess n
  have hexcess : excess n ≤ k + 1 + 1022 := by
    refine excess_le (Nat.lt_of_le_of_lt h ?_) (Nat.le_add_left 1 (k + 1022))
    rw [two_pow_mul_scale]
    exact Nat.pow_lt_pow_right (by decide) (by omega)
  obtain ⟨hf, hu⟩ := natAbs_units_round negative hn (by omega)
  refine ⟨hf, ?_⟩
  rw [hu]
  generalize roundsUp n (num <<< 1075 % den != 0) = up
  -- `n` is what is kept of it and what is cut off
  have hpow : 2 ^ excess n = 2 * 2 ^ (excess n - 1) := by
    rw [← Nat.pow_succ', Nat.succ_eq_add_one, Nat.sub_add_cancel hone]
  have hsplit := Nat.div_add_mod n (2 ^ excess n)
  have hrest := Nat.mod_lt n (Nat.two_pow_pos (excess n))
  have hkept : 2 ^ excess n * (n / 2 ^ excess n) =
      2 * (n >>> excess n * 2 ^ (excess n - 1)) := by
    rw [Nat.shiftRight_eq_div_pow, hpow]
    ring
  have hm : (n >>> excess n + up.toNat) * 2 ^ (excess n - 1) =
      n >>> excess n * 2 ^ (excess n - 1) + up.toNat * 2 ^ (excess n - 1) := Nat.add_mul ..
  have hup : up.toNat * 2 ^ (excess n - 1) ≤ 2 ^ (excess n - 1) := by
    calc up.toNat * 2 ^ (excess n - 1) ≤ 1 * 2 ^ (excess n - 1) :=
          Nat.mul_le_mul_right _ (Bool.toNat_le up)
      _ = 2 ^ (excess n - 1) := Nat.one_mul _
  rw [← and_assoc]
  refine ⟨?_, Nat.dvd_mul_left ..⟩
  by_cases hx : excess n = 1
  · rw [hx] at hm hkept hup hsplit hrest ⊢
    omega
  · have hbit : 2 ^ (excess n - 1) ≤ n >>> excess n * 2 ^ (excess n - 1) :=
      Nat.le_mul_of_pos_left _ (Nat.lt_of_lt_of_le (by decide) (le_shiftRight_excess n hx))
    omega

variable {num den : Nat}

theorem shiftLeft_div_le (h : num * scale ≤ 2 ^ k * scale * den) :
    num <<< 1075 / den ≤ 2 ^ k * scale * 2 := by
  refine Nat.div_le_of_le_mul ?_
  calc num <<< 1075 = num * scale * 2 := shiftLeft_eq num
    _ ≤ 2 ^ k * scale * den * 2 := Nat.mul_le_mul_right 2 h
    _ = den * (2 ^ k * scale * 2) := by ring

theorem below_round (negative : Bool) (h : num * scale ≤ 2 ^ k * scale * den) (hk : k ≤ 900) :
    (round negative num den).Below (k + 2) := by
  have hquot := shiftLeft_div_le h
  have hpow : 2 ^ (k + 1) * scale = 2 ^ k * scale * 2 := by rw [Nat.pow_succ, Nat.mul_right_comm]
  have hpow' : 2 ^ (k + 2) * scale = 2 ^ k * scale * 4 := by rw [Nat.pow_add, Nat.mul_right_comm]
  obtain ⟨hf, hu, -⟩ := units_round negative (hpow ▸ hquot) hk
  refine ⟨hf, Nat.le_trans hu ?_⟩
  have hpos := Nat.mul_pos (Nat.two_pow_pos k) scale_pos
  omega

variable {i : Int}

theorem below_ofFraction (z : Bool) (h : i.natAbs * scale ≤ 2 ^ k * scale * den) (hk : k ≤ 900) :
    (ofFraction z i den).Below (k + 2) := by
  unfold ofFraction
  split
  · exact below_zero z
  · exact below_round _ h hk

/-! ### Arithmetic -/

/-- The sum of two finite numbers before it is rounded. -/
theorem exists_add (hx : x.isFinite = true) (hy : y.isFinite = true) :
    ∃ z i den, 0 < den ∧ x.add y = ofFraction z i den ∧ i * scale = (x.units + y.units) * den := by
  obtain ⟨s, m, e, hm, rfl⟩ := exists_finite hx
  obtain ⟨t, n, f, hn, rfl⟩ := exists_finite hy
  refine ⟨_, _, _, Nat.mul_pos (denominator_pos e) (denominator_pos f), rfl, ?_⟩
  calc (numerator s m e * denominator f + numerator t n f * denominator e) * (scale : Int)
      = numerator s m e * scale * denominator f +
          numerator t n f * scale * denominator e := by ring
    _ = ((finite s m e hm).units + (finite t n f hn).units) *
          (denominator e * denominator f : Nat) := by
        rw [numerator_mul hm, numerator_mul hn]
        push_cast
        ring

theorem Below.add (hx : x.Below k) (hy : y.Below k) (hk : k ≤ 899) : (x.add y).Below (k + 3) := by
  obtain ⟨z, i, den, -, he, hi⟩ := exists_add hx.1 hy.1
  rw [he]
  refine below_ofFraction (k := k + 1) z ?_ (by omega)
  have habs := congrArg Int.natAbs hi
  rw [Int.natAbs_mul, Int.natAbs_mul, Int.natAbs_natCast, Int.natAbs_natCast] at habs
  rw [habs]
  refine Nat.mul_le_mul_right den (Nat.le_trans (Int.natAbs_add_le _ _) ?_)
  have hpow : 2 ^ (k + 1) * scale = 2 ^ k * scale * 2 := by rw [Nat.pow_succ, Nat.mul_right_comm]
  have := hx.2
  have := hy.2
  omega

theorem Below.sub (hx : x.Below k) (hy : y.Below k) (hk : k ≤ 899) : (x.sub y).Below (k + 3) :=
  hx.add hy.neg hk

theorem Below.mul (hx : x.Below k) (hy : y.Below l) (hk : k + l ≤ 900) :
    (x.mul y).Below (k + l + 2) := by
  obtain ⟨hfx, hux⟩ := hx
  obtain ⟨hfy, huy⟩ := hy
  obtain ⟨s, m, e, hm, rfl⟩ := exists_finite hfx
  obtain ⟨t, n, f, hn, rfl⟩ := exists_finite hfy
  refine below_ofFraction _ ?_ hk
  have hint : numerator s m e * numerator t n f * scale * (scale : Int) =
      (finite s m e hm).units * (finite t n f hn).units *
        (denominator e * denominator f : Nat) := by
    calc numerator s m e * numerator t n f * scale * (scale : Int)
        = numerator s m e * scale * (numerator t n f * scale) := by ring
      _ = _ := by
        rw [numerator_mul hm, numerator_mul hn]
        push_cast
        ring
  have habs := congrArg Int.natAbs hint
  simp only [Int.natAbs_mul, Int.natAbs_natCast] at habs
  refine Nat.le_of_mul_le_mul_right (c := scale) ?_ scale_pos
  calc (numerator s m e * numerator t n f).natAbs * scale * scale
      = (finite s m e hm).units.natAbs * (finite t n f hn).units.natAbs *
          (denominator e * denominator f) := by rw [Int.natAbs_mul, habs]
    _ ≤ 2 ^ k * scale * (2 ^ l * scale) * (denominator e * denominator f) :=
        Nat.mul_le_mul_right _ (Nat.mul_le_mul hux huy)
    _ = 2 ^ (k + l) * scale * (denominator e * denominator f) * scale := by
        rw [Nat.pow_add]
        ring

theorem natAbs_numerator_mul {s : Bool} {m : Nat} {e : Int} (h : Fits m e) :
    m <<< e.toNat * scale = (finite s m e h).units.natAbs * denominator e := by
  have habs := congrArg Int.natAbs (numerator_mul (s := s) h)
  rw [Int.natAbs_mul, Int.natAbs_mul, Int.natAbs_natCast, Int.natAbs_natCast] at habs
  rw [← habs]
  unfold numerator
  cases s with
  | false => rw [if_neg Bool.false_ne_true, Int.natAbs_natCast]
  | true => rw [if_pos rfl, Int.natAbs_neg, Int.natAbs_natCast]

/-- A quotient by what is not too small. -/
theorem Below.div (hx : x.Below k) (hy : y.isFinite = true)
    (hl : scale ≤ y.units.natAbs * 2 ^ l) (hk : k + l ≤ 900) : (x.div y).Below (k + l + 2) := by
  obtain ⟨hfx, hux⟩ := hx
  obtain ⟨s, m, e, hm, rfl⟩ := exists_finite hfx
  obtain ⟨t, n, f, hn, rfl⟩ := exists_finite hy
  have hn0 : n ≠ 0 := by
    rintro rfl
    have hzero : (finite t 0 f hn).units.natAbs = 0 := by cases t <;> simp [units]
    rw [hzero, Nat.zero_mul] at hl
    exact absurd hl (Nat.not_le_of_lt scale_pos)
  change (if n = 0 then _ else if m = 0 then _ else round _ _ _ : Binary64).Below _
  rw [if_neg hn0]
  split
  · exact below_zero _
  · refine below_round _ ?_ hk
    have hnum := natAbs_numerator_mul (s := s) hm
    have hden := natAbs_numerator_mul (s := t) hn
    calc m <<< e.toNat * denominator f * scale
        = (finite s m e hm).units.natAbs * (denominator e * denominator f) := by
          rw [Nat.mul_right_comm, hnum, Nat.mul_assoc]
      _ ≤ 2 ^ k * scale * (denominator e * denominator f) := Nat.mul_le_mul_right _ hux
      _ ≤ 2 ^ k * ((finite t n f hn).units.natAbs * 2 ^ l) *
            (denominator e * denominator f) :=
          Nat.mul_le_mul_right _ (Nat.mul_le_mul_left _ hl)
      _ = 2 ^ (k + l) * ((finite t n f hn).units.natAbs * denominator f) *
            denominator e := by
          rw [Nat.pow_add]
          ring
      _ = 2 ^ (k + l) * scale * (n <<< f.toNat * denominator e) := by
          rw [← hden]
          ring

theorem Below.modulo (hx : x.Below k) (hy : y.Below (k + 2)) (h0 : y.units ≠ 0) (hk : k ≤ 890) :
    (x.modulo y).Below (k + 5) := by
  obtain ⟨hfx, hux⟩ := hx
  obtain ⟨s, m, e, hm, rfl⟩ := exists_finite hfx
  obtain ⟨t, n, f, hn, rfl⟩ := exists_finite hy.1
  have hn0 : n ≠ 0 := by
    rintro rfl
    cases t <;> simp [units] at h0
  let num := numerator s m e * denominator f
  let rest := num.tmod (numerator t n f * denominator e)
  let below := ofFraction s rest (denominator e * denominator f)
  change (if n = 0 then notANumber else if rest = 0 then zero t else
    if decide (rest < 0) = t then below else below.add (finite t n f hn)).Below _
  rw [if_neg hn0]
  split
  · exact below_zero _
  · have hbelow : below.Below (k + 2) := by
      refine below_ofFraction s ?_ (by omega)
      have hrest : rest.natAbs ≤ num.natAbs := by
        rw [Int.natAbs_tmod]
        exact Nat.mod_le _ _
      refine Nat.le_trans (Nat.mul_le_mul_right scale hrest) ?_
      have hnum : num.natAbs * scale =
          (finite s m e hm).units.natAbs * (denominator e * denominator f) := by
        have habs := congrArg Int.natAbs (numerator_mul (s := s) hm)
        rw [Int.natAbs_mul, Int.natAbs_mul, Int.natAbs_natCast,
          Int.natAbs_natCast] at habs
        rw [Int.natAbs_mul, Int.natAbs_natCast, Nat.mul_right_comm, habs, Nat.mul_assoc]
      rw [hnum]
      exact Nat.mul_le_mul_right _ hux
    split
    · exact hbelow.mono (by omega)
    · exact hbelow.add hy (by omega)

/-! ### Comparing -/

/-- Numbers that differ have different units. -/
theorem units_ne_of_same (hx : x.isFinite = true) (hy : y.isFinite = true)
    (h : x.same y = false) : x.units ≠ y.units := by
  obtain ⟨s, m, e, hm, rfl⟩ := exists_finite hx
  obtain ⟨t, n, f, hn, rfl⟩ := exists_finite hy
  intro hu
  have hcross : numerator s m e * denominator f = numerator t n f * denominator e := by
    have hpos : (scale : Int) ≠ 0 := by exact_mod_cast Nat.pos_iff_ne_zero.mp scale_pos
    refine Int.eq_of_mul_eq_mul_right hpos ?_
    rw [Int.mul_right_comm, numerator_mul hm, Int.mul_right_comm (numerator t n f),
      numerator_mul hn, hu]
    exact Int.mul_right_comm _ _ _
  rw [same, compare?, hcross] at h
  simp at h

/-- The difference of two numbers is not too small when they are different multiples of a number
that is not. -/
theorem le_units_sub {grid j : Nat} (hj : scale = grid * 2 ^ j) (hx : x.Below k) (hy : y.Below k)
    (hk : k ≤ 899) (hgx : (grid : Int) ∣ x.units) (hgy : (grid : Int) ∣ y.units)
    (h : y.same x = false) :
    (x.sub y).isFinite = true ∧ scale ≤ (x.sub y).units.natAbs * 2 ^ (j + 2) := by
  refine ⟨(hx.sub hy hk).1, ?_⟩
  obtain ⟨z, i, den, hden, he, hi⟩ := exists_add hx.1 hy.neg.1
  rw [units_neg, ← sub_eq_add_neg] at hi
  have hne := (units_ne_of_same hy.1 hx.1 h).symm
  have habs : i.natAbs * scale = (x.units - y.units).natAbs * den := by
    have habs := congrArg Int.natAbs hi
    rwa [Int.natAbs_mul, Int.natAbs_mul, Int.natAbs_natCast, Int.natAbs_natCast] at habs
  have hquot : i.natAbs <<< 1075 / den = (x.units - y.units).natAbs * 2 := by
    rw [shiftLeft_eq, habs, Nat.mul_right_comm, Nat.mul_div_cancel _ hden]
  have hgrid : grid ≤ (x.units - y.units).natAbs :=
    Nat.le_of_dvd (Int.natAbs_pos.mpr (sub_ne_zero.mpr hne))
      (Int.natCast_dvd.mp (Int.dvd_sub hgx hgy))
  have hi0 : i ≠ 0 := by
    rintro rfl
    rw [Int.natAbs_zero, Nat.zero_mul, eq_comm, Nat.mul_eq_zero] at habs
    exact habs.elim (fun h => hne (sub_eq_zero.mp (Int.natAbs_eq_zero.mp h)))
      (Nat.pos_iff_ne_zero.mp hden)
  have hbound : i.natAbs <<< 1075 / den ≤ 2 ^ (k + 1 + 1) * scale := by
    have := Int.natAbs_sub_le x.units y.units
    have := hx.2
    have := hy.2
    have hpow : 2 ^ (k + 1 + 1) * scale = 2 ^ k * scale * 4 := by
      rw [Nat.pow_add, Nat.pow_add]
      ring
    omega
  rw [Binary64.sub, he, ofFraction, if_neg hi0]
  have hround := (units_round (decide (i < 0)) hbound (by omega)).2.2.1
  rw [hquot] at hround
  generalize (round (decide (i < 0)) i.natAbs den).units.natAbs = u at hround ⊢
  rw [hj, Nat.pow_add, show (2 : Nat) ^ 2 = 4 from rfl, ← Nat.mul_assoc, Nat.mul_right_comm]
  refine Nat.mul_le_mul_right _ ?_
  omega

end Binary64

/-! ### Hues -/

namespace Rgb

open Binary64

theorem below_ratio (c : Fin 256) : (ratio c).Below 2 := by
  refine below_round (k := 0) false ?_ (by decide)
  rw [Nat.pow_zero, Nat.one_mul, Nat.mul_comm]
  exact Nat.mul_le_mul_left _ (by omega)

/-- All ratios are multiples of a number that is not too small. -/
theorem two_pow_dvd_ratio (hk : k + 60 ≤ 1074) (c : Fin 256) :
    ((2 ^ k : Nat) : Int) ∣ (ratio c).units := by
  rw [Int.natCast_dvd]
  by_cases hc : c = 0
  · have hzero : (ratio 0).units = 0 := by decide +kernel
    rw [hc, hzero]
    exact Nat.dvd_zero _
  · have hpos : 1 ≤ c.val := by
      have := Fin.val_ne_of_ne hc
      omega
    have hle : c.val * scale ≤ 2 ^ 0 * scale * 255 := by
      rw [Nat.pow_zero, Nat.one_mul, Nat.mul_comm]
      exact Nat.mul_le_mul_left _ (by omega)
    have hlarge : 2 ^ (k + 53) ≤ c.val <<< 1075 / 255 := by
      refine (Nat.le_div_iff_mul_le (by decide)).mpr ?_
      calc 2 ^ (k + 53) * 255 ≤ 2 ^ (k + 53) * (2 ^ 7 * 2) := Nat.mul_le_mul_left _ (by decide)
        _ ≤ 2 ^ (k + 53) * (2 ^ (1074 - (k + 53)) * 2) :=
            Nat.mul_le_mul_left _ (Nat.mul_le_mul_right _
              (Nat.pow_le_pow_right (by decide) (by omega)))
        _ = scale * 2 := by rw [← Nat.mul_assoc, ← scale_eq (by omega)]
        _ ≤ c.val <<< 1075 := by
            rw [shiftLeft_eq]
            exact Nat.mul_le_mul_right _ (Nat.le_mul_of_pos_left _ hpos)
    have hround := (units_round (k := 0) false (Nat.le_trans (shiftLeft_div_le hle)
      (Nat.le_of_eq (by rw [Nat.pow_succ, Nat.mul_right_comm]))) (by decide)).2.2.2
    exact Nat.dvd_trans (Nat.pow_dvd_pow 2 (Nat.le_sub_one_of_lt (lt_excess hlarge))) hround

theorem below_whole {n : Nat} (hn : n ≤ 2 ^ k) (hk : k ≤ 900) : (whole n).Below (k + 2) := by
  refine below_round false ?_ hk
  rw [Nat.mul_one]
  exact Nat.mul_le_mul_right _ hn

theorem greater_eq (x y : Binary64) : greater x y = x ∨ greater x y = y := by
  unfold greater
  split
  · exact .inr rfl
  · exact .inl rfl

theorem lesser_eq (x y : Binary64) : lesser x y = x ∨ lesser x y = y := by
  unfold lesser
  split
  · exact .inr rfl
  · exact .inl rfl

theorem below_hue (c : Rgb) : c.hue.Below 95 := by
  unfold hue
  extract_lets r g b high low range rc gc bc sextants turn
  have hr : r.Below 2 := below_ratio c.red
  have hg : g.Below 2 := below_ratio c.green
  have hb : b.Below 2 := below_ratio c.blue
  -- the greatest and the least channel are channels
  have channel {P : Binary64 → Prop} (h : ∀ c, P (ratio c)) : P high ∧ P low := by
    constructor
    · obtain h' | h' := greater_eq (greater r g) b <;> rw [show high = _ from h']
      · obtain h' | h' := greater_eq r g <;> rw [h'] <;> exact h _
      · exact h _
    · obtain h' | h' := lesser_eq (lesser r g) b <;> rw [show low = _ from h']
      · obtain h' | h' := lesser_eq r g <;> rw [h'] <;> exact h _
      · exact h _
  obtain ⟨hhigh, hlow⟩ := channel below_ratio
  obtain ⟨hgh, hgl⟩ := channel (P := fun x => ((2 ^ 1014 : Nat) : Int) ∣ x.units)
    (two_pow_dvd_ratio (by decide))
  have hturn : turn.Below 82 := by
    unfold turn
    split
    · exact below_zero _
    · rename_i hne
      rw [Bool.not_eq_true] at hne
      obtain ⟨hf, hl⟩ := le_units_sub (scale_eq (by decide)) hhigh hlow (by decide) hgh hgl hne
      have part {x : Binary64} (hx : x.Below 2) : ((high.sub x).div range).Below 69 :=
        (hhigh.sub hx (by decide)).div hf hl (by decide)
      have whole {n : Nat} (hn : n ≤ 2 ^ 2) : (Rgb.whole n).Below 69 :=
        (below_whole hn (by decide)).mono (by decide)
      have hsextants : sextants.Below 75 := by
        unfold sextants
        split
        · exact ((part hb).sub (part hg) (by decide)).mono (by decide)
        · split
          · exact ((whole (by decide)).add (part hr) (by decide)).sub
              ((part hb).mono (by decide)) (by decide)
          · exact ((whole (by decide)).add (part hg) (by decide)).sub
              ((part hr).mono (by decide)) (by decide)
      have hsix : (Rgb.whole 6).isFinite = true ∧ scale ≤ (Rgb.whole 6).units.natAbs * 2 ^ 0 := by
        decide +kernel
      have hone : (Rgb.whole 1).units ≠ 0 := by decide +kernel
      exact (hsextants.div hsix.1 hsix.2 (by decide)).modulo
        ((below_whole (k := 0) (by decide) (by decide)).mono (by decide)) hone (by decide)
  exact hturn.mul (below_whole (n := 360) (k := 9) (by decide) (by decide)) (by decide)

end Rgb

/-! ### Lightening -/

namespace Binary64

theorem exists_floor_float (hx : x.isFinite = true) : ∃ i, (Number.float x).floor = .ok i := by
  obtain ⟨i, hi, -⟩ := exists_floor? hx
  refine ⟨i, ?_⟩
  unfold Number.floor Number.wholeBy
  simp only [hi]

theorem below_ofInt {i : Int} (hi : i.natAbs ≤ 2 ^ k) (hk : k ≤ 900) :
    ∃ y, Number.ofInt i = .ok y ∧ y.Below (k + 2) := by
  have hbelow : (ofFraction false i 1).Below (k + 2) := by
    refine below_ofFraction false ?_ hk
    rw [Nat.mul_one]
    exact Nat.mul_le_mul_right _ hi
  refine ⟨_, ?_, hbelow⟩
  unfold Number.ofInt ofInt?
  cases h : ofFraction false i 1 with
  | infinite s => rw [h] at hbelow; cases hbelow.1
  | nan n => rfl
  | finite s m e hf => rfl

/-- The whole part of a number is not greater. -/
theorem Below.natAbs_floor {i : Int} (hx : x.Below k) (hi : (Number.float x).floor = .ok i) :
    i.natAbs ≤ 2 ^ k := by
  obtain ⟨hf, hu⟩ := hx
  obtain ⟨s, m, e, hm, rfl⟩ := exists_finite hf
  obtain rfl : numerator s m e / denominator e = i := Except.ok.inj hi
  have habs := congrArg Int.natAbs (numerator_mul (s := s) hm)
  rw [Int.natAbs_mul, Int.natAbs_mul, Int.natAbs_natCast, Int.natAbs_natCast] at habs
  have hle : (numerator s m e).natAbs ≤ 2 ^ k * denominator e := by
    refine Nat.le_of_mul_le_mul_right (c := scale) ?_ scale_pos
    rw [habs, Nat.mul_right_comm]
    exact Nat.mul_le_mul_right _ hu
  have hpos : (0 : Int) < denominator e := by exact_mod_cast denominator_pos e
  have hlow : -((2 ^ k : Nat) : Int) ≤ numerator s m e / denominator e :=
    Int.le_ediv_of_mul_le hpos (by rw [Int.neg_mul, ← Int.natCast_mul]; omega)
  have hhigh : numerator s m e / denominator e ≤ ((2 ^ k : Nat) : Int) :=
    Int.ediv_le_of_le_mul hpos (by rw [← Int.natCast_mul]; omega)
  omega

end Binary64

namespace Number

variable {i : Int} {x y : Binary64}

theorem lift_int_float (exact : Int → Int → Int) (rounded : Binary64 → Binary64 → Binary64)
    (hi : ofInt i = .ok x) :
    lift exact rounded (.int i) (.float y) = .ok (.float (rounded x y)) := by
  change (do return Number.float (rounded (← ofInt i) y)) = _
  rw [hi]
  rfl

theorem lift_float_int (exact : Int → Int → Int) (rounded : Binary64 → Binary64 → Binary64)
    (hi : ofInt i = .ok x) :
    lift exact rounded (.float y) (.int i) = .ok (.float (rounded y x)) := by
  change (do return Number.float (rounded y (← ofInt i))) = _
  rw [hi]
  rfl

theorem div_float_int (hi : ofInt i = .ok x) : div (.float y) (.int i) = .ok (y.div x) := by
  change (do return y.div (← ofInt i)) = _
  rw [hi]
  rfl

end Number

namespace Rgb

open Binary64

variable {k : Nat}

theorem exists_dimmed {v : Int} (hv : v.natAbs ≤ 2 ^ 8) {y : Binary64} (hy : y.Below k)
    (hk : k ≤ 800) : ∃ i, dimmed (.int v) (.float y) = .ok i := by
  obtain ⟨one, hone, hb⟩ := below_ofInt (k := 0) (i := 1) (by decide) (by decide)
  obtain ⟨x, hx, hbx⟩ := below_ofInt hv (by decide)
  have hrest : (one.sub y).Below (k + 2 + 3) :=
    (hb.mono (by omega)).sub (hy.mono (by omega)) (by omega)
  obtain ⟨i, hi⟩ := exists_floor_float (hbx.mul hrest (by omega)).1
  refine ⟨i, ?_⟩
  have hsub : Number.sub (.int 1) (.float y) = .ok (.float (one.sub y)) :=
    Number.lift_int_float _ _ hone
  have hmul : Number.mul (.int v) (.float (one.sub y)) = .ok (.float (x.mul (one.sub y))) :=
    Number.lift_int_float _ _ hx
  unfold dimmed
  simp only [hsub, Bind.bind, Except.bind, hmul]
  exact hi

/-- Any hue can be painted. -/
theorem exists_ofHsv {h s : Binary64} {v : Int} (hh : h.Below 95) (hs : s.Below 1)
    (hs0 : (Value.float s).same (.int 0) = false) (hv : v.natAbs ≤ 2 ^ 8) :
    ∃ c, ofHsv (.float h) (.float s) (.int v) = .ok c := by
  obtain ⟨sixty, hsixty, -⟩ := below_ofInt (k := 6) (i := 60) (by decide) (by decide)
  obtain ⟨one, hone, hb⟩ := below_ofInt (k := 0) (i := 1) (by decide) (by decide)
  have hlarge : sixty.isFinite = true ∧ scale ≤ sixty.units.natAbs * 2 ^ 0 := by
    have hsome : ofInt? 60 = some (ofFraction false 60 1) := by decide +kernel
    rw [Number.ofInt, hsome] at hsixty
    rw [← Except.ok.inj hsixty]
    decide +kernel
  have hturns := hh.div hlarge.1 hlarge.2 (by decide)
  obtain ⟨sector, hsector⟩ := exists_floor_float hturns.1
  obtain ⟨y, hy, hby⟩ := below_ofInt (hturns.natAbs_floor hsector) (by decide)
  have hpart := (hturns.mono (by decide)).sub hby (by decide)
  obtain ⟨p, hp⟩ := exists_dimmed hv hs (by decide)
  obtain ⟨q, hq⟩ := exists_dimmed hv (hs.mul hpart (by decide)) (by decide)
  obtain ⟨t, ht⟩ := exists_dimmed hv (hs.mul ((hb.mono (by decide)).sub hpart (by decide))
    (by decide)) (by decide)
  have hdiv : Number.div (.float h) (.int 60) = .ok (h.div sixty) := Number.div_float_int hsixty
  have hdimmable : dimmable (.int v) (.float s) = .ok (.int v) := by
    have hsub : Number.sub (.int 1) (.float s) = .ok (.float (one.sub s)) :=
      Number.lift_int_float _ _ hone
    unfold dimmable
    rw [hsub]
    rfl
  have hsubpart : Number.sub (.float (h.div sixty)) (.int sector) =
      .ok (.float ((h.div sixty).sub y)) := Number.lift_float_int _ _ hy
  have hrest : Number.sub (.int 1) (.float ((h.div sixty).sub y)) =
      .ok (.float (one.sub ((h.div sixty).sub y))) := Number.lift_int_float _ _ hone
  unfold ofHsv
  rw [hs0, if_neg Bool.false_ne_true]
  have toNumber_float (x : Binary64) : (Value.float x).toNumber = .ok (.float x) := rfl
  have mul_float (x y : Binary64) : Number.mul (.float x) (.float y) = .ok (.float (x.mul y)) := rfl
  have floor_int (i : Int) : (Number.int i).floor = .ok i := rfl
  simp only [toNumber_float, hdiv, hsector, hdimmable, hsubpart, hp, mul_float, hq, hrest, ht,
    floor_int, Bind.bind, Except.bind, Pure.pure, Except.pure]
  exact ⟨_, rfl⟩

end Rgb

namespace Shade

open Binary64

/-- Any colour has a paler and brighter one of its hue. -/
theorem exists_brighten (c : Rgb) : ∃ c', brighten c = .ok c' := by
  have hhalf : (Decimal.value false 5 (-1)).Below 1 := by
    have hdec : (Decimal.value false 5 (-1)).isFinite = true ∧
        (Decimal.value false 5 (-1)).units.natAbs ≤ 2 ^ 1 * scale := by decide +kernel
    exact hdec
  exact Rgb.exists_ofHsv c.below_hue hhalf (by decide +kernel) (by decide)

/-- A whole number can be added to any channel. -/
theorem exists_raiseAll {delta : Value} {i : Int} (hd : delta.number? = some (.int i)) (c : Rgb) :
    ∃ c', raiseAll delta c = .ok c' := by
  have raised (c : Fin 256) : ∃ j, raise delta c = .ok (.int j) := by
    have hnumber : delta.toNumber = .ok (.int i) := by rw [Value.toNumber, hd]
    unfold raise
    rw [hnumber]
    change ∃ j, Except.ok (Number.min (.int (c + i)) (.int 255)) = .ok (.int j)
    unfold Number.min
    split
    · exact ⟨_, rfl⟩
    · exact ⟨_, rfl⟩
  obtain ⟨r, hr⟩ := raised c.red
  obtain ⟨g, hg⟩ := raised c.green
  obtain ⟨b, hb⟩ := raised c.blue
  refine ⟨.ofInts r g b, ?_⟩
  rw [raiseAll, hr, hg, hb]
  rfl

end Shade

/-! ### Written colours -/

namespace Rgb

theorem channel?_hexDigits (c : Fin 256) :
    channel? (Nat.digitChar (c / 16)) (Nat.digitChar (c % 16)) = some c := by
  have hall : ∀ c : Fin 256,
      channel? (Nat.digitChar (c / 16)) (Nat.digitChar (c % 16)) = some c := by decide +kernel
  exact hall c

theorem isBlank_hexDigit (c : Fin 256) : Text.isBlank (Nat.digitChar (c % 16)) = false := by
  have hall : ∀ c : Fin 256, Text.isBlank (Nat.digitChar (c % 16)) = false := by decide +kernel
  exact hall c

/-- A written colour is read as what it was. -/
theorem ofHex?_hex (c : Rgb) : ofHex? c.hex = some c := by
  have htrim : Text.trimBy Text.isBlank c.hexChars = c.hexChars := by
    have hhead : Text.isBlank '#' = false := by decide
    simp [Text.trimBy, hexChars, hexDigits, hhead, isBlank_hexDigit]
  unfold ofHex? hex
  rw [String.toList_ofList, htrim]
  simp [hexChars, hexDigits, ofChars?, ofDigits?, channel?_hexDigits]

end Rgb

namespace Shade

/-- Whether channels are raised by a whole number, if they are raised. -/
def Whole (s : Shade) : Prop := s.policy = .rgb → ∃ i, s.delta.number? = some (.int i)

/-- **Every colour can be lightened.** -/
theorem exists_lightenText {s : Shade} (hs : s.Whole) (c : Rgb) :
    ∃ text, s.lightenText (.text c.hex) = .ok text := by
  have hlight : ∃ c', s.lighten c = .ok c' := by
    obtain ⟨policy, delta⟩ := s
    cases policy with
    | rgb =>
        obtain ⟨i, hi⟩ : ∃ i, delta.number? = some (.int i) := hs rfl
        exact exists_raiseAll hi c
    | hsv => exact exists_brighten c
  obtain ⟨c', hc⟩ := hlight
  refine ⟨c'.hex, ?_⟩
  have hread : Rgb.ofValue (.text c.hex) = .ok c := by
    unfold Rgb.ofValue
    rw [show Rgb.ofValue? (.text c.hex) = some c from c.ofHex?_hex]
  unfold lightenText
  rw [hread]
  change (do return (← s.lighten c).hex) = _
  rw [hc]
  rfl

end Shade

end Blockwork
