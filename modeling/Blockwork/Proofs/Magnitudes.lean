import Blockwork.Proofs.Outcome
import Mathlib.Algebra.Group.Nat.Defs

/-!
# Magnitudes

Which whole numbers have a double-precision number near them: those that are not beyond the greatest
one (`Binary64.exists_ofInt?`), and so all that come of rounding a finite number down or toward
zero.  What a number field holds is therefore a number that can be read in double precision
(`Value.Numeric`).
-/

namespace Blockwork

namespace Binary64

/-- The greatest finite number. -/
def greatest : Nat := (2 ^ 53 - 1) * 2 ^ 971

theorem exists_finite {x : Binary64} (h : x.isFinite = true) :
    ∃ s m e, ∃ hm : Fits m e, x = finite s m e hm := by
  cases x with
  | nan n => cases h
  | infinite s => cases h
  | finite s m e hm => exact ⟨s, m, e, hm, rfl⟩

theorem isFinite_pack {negative : Bool} {m : Nat} {e : Int} {le least full}
    (he : e ≤ 971) (hm : m = 0x20000000000000 → e + 1 ≤ 971) :
    (pack negative m e le least full).isFinite = true := by
  unfold pack
  split
  · rename_i h
    rw [dif_pos (hm h)]
    rfl
  · rfl

theorem excess_le {n k : Nat} (h : n < 2 ^ (k + 53)) (hk : 1 ≤ k) : excess n ≤ k := by
  unfold excess
  have hlog : n.log2 < k + 53 := by
    rcases Nat.eq_zero_or_pos n with rfl | hn
    · simp
    · exact (Nat.log2_lt (Nat.pos_iff_ne_zero.mp hn)).mpr h
  omega

theorem mul_two_pow_lt {m i j : Nat} (h : m < 2 ^ i) : m * 2 ^ j < 2 ^ (i + j) := by
  rw [Nat.pow_add]
  exact Nat.mul_lt_mul_of_pos_right h (Nat.two_pow_pos j)

theorem greatest_mul_lt : greatest * 2 ^ 1075 < 2 ^ (2046 + 53) := by
  have hm : 2 ^ 53 - 1 < 2 ^ 53 := Nat.sub_one_lt_of_lt (Nat.two_pow_pos 53)
  have hsum : 2046 + 53 = 53 + 971 + 1075 := rfl
  rw [hsum]
  exact mul_two_pow_lt (mul_two_pow_lt hm)

theorem denominator_pos (e : Int) : 0 < denominator e := by
  rw [denominator, Nat.one_shiftLeft]
  exact Nat.two_pow_pos _

/-- Where nothing is cut off but zeros, nothing is rounded up. -/
theorem roundsUp_of_mod_eq_zero {n : Nat} (h : n % 2 ^ excess n = 0) (inexact : Bool) :
    roundsUp n inexact = false := by
  have hhalf : 0 < 1 <<< (excess n - 1) := by
    rw [Nat.one_shiftLeft]
    exact Nat.two_pow_pos _
  have hrest : n % 1 <<< excess n = 0 := by rw [Nat.one_shiftLeft, h]
  have hne : (0 == 1 <<< (excess n - 1)) = false := by
    rw [beq_eq_false_iff_ne]
    omega
  simp [roundsUp, hrest, hne]

/-- What is not beyond the greatest number is rounded to a finite one. -/
theorem isFinite_round {negative : Bool} {num : Nat} (h : num ≤ greatest) :
    (round negative num 1).isFinite = true := by
  have hn : num <<< 1075 / 1 = num * 2 ^ 1075 := by rw [Nat.div_one, Nat.shiftLeft_eq]
  have hle : num * 2 ^ 1075 ≤ greatest * 2 ^ 1075 := Nat.mul_le_mul_right _ h
  have hx : excess (num * 2 ^ 1075) ≤ 2046 :=
    excess_le (Nat.lt_of_le_of_lt hle greatest_mul_lt) (by decide)
  unfold round
  refine isFinite_pack ?_ fun hm => ?_
  · rw [hn]
    omega
  · rw [hn] at hm ⊢
    rcases Nat.lt_or_eq_of_le hx with hlt | heq
    · omega
    · have hpow : (2 : Nat) ^ 2046 = 2 ^ 971 * 2 ^ 1075 := by rw [← Nat.pow_add]
      have hquot : (num * 2 ^ 1075) >>> excess (num * 2 ^ 1075) = num / 2 ^ 971 := by
        rw [heq, Nat.shiftRight_eq_div_pow, hpow, Nat.mul_div_mul_right _ _ (Nat.two_pow_pos 1075)]
      have hsmall : num / 2 ^ 971 ≤ 2 ^ 53 - 1 := by
        refine Nat.div_le_of_le_mul ?_
        rw [Nat.mul_comm]
        exact h
      rw [hquot] at hm
      -- the number is as great as it can be, so that there is nothing to be rounded
      have htop : num / 2 ^ 971 = 2 ^ 53 - 1 := by
        have hup := Bool.toNat_le (roundsUp (num * 2 ^ 1075) (num <<< 1075 % 1 != 0))
        omega
      have hmod : num % 2 ^ 971 = 0 := by
        have hdiv := Nat.div_add_mod num (2 ^ 971)
        rw [htop, Nat.mul_comm] at hdiv
        unfold greatest at h
        omega
      rw [roundsUp_of_mod_eq_zero, htop] at hm
      · cases hm
      · rw [heq, hpow, Nat.mul_mod_mul_right, hmod, Nat.zero_mul]

theorem isFinite_ofFraction {i : Int} (h : i.natAbs ≤ greatest) :
    (ofFraction false i 1).isFinite = true := by
  unfold ofFraction
  split
  · rfl
  · exact isFinite_round h

/-- A whole number that is not beyond the greatest number has a number near it. -/
theorem exists_ofInt? {i : Int} (h : i.natAbs ≤ greatest) :
    ∃ x, ofInt? i = some x ∧ x.isFinite = true := by
  have hf := isFinite_ofFraction h
  unfold ofInt?
  cases hx : ofFraction false i 1 with
  | nan n => rw [hx] at hf; cases hf
  | infinite s => rw [hx] at hf; cases hf
  | finite s m e hfits => exact ⟨_, rfl, rfl⟩

/-! ### Whole parts -/

theorem natAbs_numerator_le {s : Bool} {m : Nat} {e : Int} (h : Fits m e) :
    (numerator s m e).natAbs ≤ greatest := by
  have hm : m ≤ 2 ^ 53 - 1 := Nat.le_sub_one_of_lt h.lt
  have he : e.toNat ≤ 971 := by
    have := h.greatest
    omega
  have hle : m <<< e.toNat ≤ greatest := by
    rw [Nat.shiftLeft_eq]
    exact Nat.mul_le_mul hm (Nat.pow_le_pow_right (by decide) he)
  unfold numerator
  cases s with
  | true =>
      dsimp only
      rw [if_pos rfl, Int.natAbs_neg]
      exact hle
  | false => exact hle

/-- The whole parts of a finite number are not beyond the greatest number. -/
theorem exists_floor? {x : Binary64} (h : x.isFinite = true) :
    ∃ i, x.floor? = some i ∧ i.natAbs ≤ greatest := by
  obtain ⟨s, m, e, hfits, rfl⟩ := exists_finite h
  exact ⟨_, rfl, Nat.le_trans (Int.natAbs_ediv_le_natAbs _ _) (natAbs_numerator_le hfits)⟩

theorem exists_truncate? {x : Binary64} (h : x.isFinite = true) :
    ∃ i, x.truncate? = some i ∧ i.natAbs ≤ greatest := by
  obtain ⟨s, m, e, hfits, rfl⟩ := exists_finite h
  refine ⟨_, rfl, Nat.le_trans ?_ (natAbs_numerator_le (s := s) hfits)⟩
  rw [Int.natAbs_tdiv]
  exact Nat.div_le_self _ _

theorem exists_nearest? {x : Binary64} (h : x.isFinite = true) : ∃ i, x.nearest? = some i := by
  obtain ⟨s, m, e, hfits, rfl⟩ := exists_finite h
  exact ⟨_, rfl⟩

end Binary64

/-! ### Numbers in fields -/

/-- Whether a value is a number that can be read in double precision, and zero only as a whole
number. -/
structure Value.Numeric (u : Value) : Prop where
  number : ∃ n, u.number? = some n
  read : ∃ x, u.toFloat = .ok x ∧ x.isFinite = true
  zero : u.isTruthy = false → u = .int 0

theorem Value.numeric_int {i : Int} (h : i.natAbs ≤ Binary64.greatest) : (Value.int i).Numeric where
  number := ⟨_, rfl⟩
  read := by
    obtain ⟨x, hx, hf⟩ := Binary64.exists_ofInt? h
    refine ⟨x, ?_, hf⟩
    change Number.ofInt i = .ok x
    rw [Number.ofInt, hx]
  zero hz := by
    have hi : i = 0 := by simpa [isTruthy] using hz
    rw [hi]

theorem Number.same_zero {x : Binary64} (h : x.isZero = true) :
    (Number.float x).same (.int 0) = true := by
  cases x with
  | nan n => cases h
  | infinite s => cases h
  | finite s m e hfits =>
      have hm : m = 0 := by simpa [Binary64.isZero] using h
      subst hm
      cases s <;> simp [same, compare?, compare?.intFloat, Binary64.numerator]

namespace Socket

variable {s : Socket} {u v : Value}

/-- What a number field makes of a value: a number that is read, rounded, brought between the bounds
and settled. -/
theorem exists_of_coerceNumber (h : s.coerceNumber u = .ok v) :
    ∃ x n m k, readNumber s.name u = .ok x ∧ snap s.precision x = .ok n ∧ raiseTo s.min n = .ok m ∧
      lowerTo s.max m = .ok k ∧ settle k = .ok v := by
  unfold coerceNumber at h
  obtain ⟨x, hread, h⟩ := exists_of_bind_ok h
  obtain ⟨n, hsnap, h⟩ := exists_of_bind_ok h
  obtain ⟨m, hraise, h⟩ := exists_of_bind_ok h
  obtain ⟨k, hlower, hsettle⟩ := exists_of_bind_ok h
  exact ⟨x, n, m, k, hread, hsnap, hraise, hlower, hsettle⟩

theorem numeric_of_settle {x : Binary64} (hx : x.isFinite = true)
    (h : settle (.float x) = .ok v) : v.Numeric := by
  obtain ⟨i, hi, hle⟩ := Binary64.exists_truncate? hx
  have ht : (Number.float x).truncate = .ok i := by
    unfold Number.truncate Number.wholeBy
    simp only [hi]
  rw [settle, ht] at h
  change Except.ok (if (Number.float x).same (.int i) then _ else _) = _ at h
  split at h
  · exact Except.ok.inj h ▸ Value.numeric_int hle
  · rename_i hne
    obtain rfl := Except.ok.inj h
    refine ⟨⟨_, rfl⟩, ⟨x, rfl, hx⟩, fun hz => ?_⟩
    have hzero : x.isZero = true := by simpa [Value.isTruthy, Number.toValue] using hz
    have hi0 : i = 0 := by
      obtain ⟨s, m, e, hfits, rfl⟩ := Binary64.exists_finite hx
      have hm : m = 0 := by simpa [Binary64.isZero] using hzero
      subst hm
      cases s <;> simpa [Binary64.truncate?, Binary64.fraction?, Binary64.numerator] using hi.symm
    exact absurd (hi0 ▸ Number.same_zero hzero) hne

theorem isFinite_of_readNumber {field : Value} {x : Binary64} (h : readNumber field u = .ok x) :
    x.isFinite = true := by
  unfold readNumber at h
  split at h
  · split at h
    · obtain rfl := Except.ok.inj h
      assumption
    · cases h
  · cases h
  · cases h
  · cases h

theorem raiseTo_null (n : Number) : raiseTo .null n = .ok n := if_pos rfl

theorem lowerTo_null (n : Number) : lowerTo .null n = .ok n := if_pos rfl

/-- A number field without bounds and precision holds a number as it was read. -/
theorem numeric_of_coerce_plain (hk : s.kind = .number) (hp : s.precision = .null)
    (hmin : s.min = .null) (hmax : s.max = .null) (h : s.coerce u = .ok v) : v.Numeric := by
  rw [coerce, hk] at h
  obtain ⟨x, n, m, k, hread, hsnap, hraise, hlower, hsettle⟩ := exists_of_coerceNumber h
  obtain rfl : .float x = n := Except.ok.inj ((hp ▸ hsnap :) : snap .null x = .ok n)
  obtain rfl := Except.ok.inj ((raiseTo_null _).symm.trans (hmin ▸ hraise))
  obtain rfl := Except.ok.inj ((lowerTo_null _).symm.trans (hmax ▸ hlower))
  exact numeric_of_settle (isFinite_of_readNumber hread) hsettle

theorem le_greatest_of_floor {x : Binary64} {i : Int} (h : (Number.float x).floor = .ok i) :
    i.natAbs ≤ Binary64.greatest := by
  have hf : x.isFinite = true := by
    cases x with
    | nan n => cases h
    | infinite s => cases h
    | finite s m e hfits => rfl
  obtain ⟨j, hj, hle⟩ := Binary64.exists_floor? hf
  unfold Number.floor Number.wholeBy at h
  simp only [hj] at h
  exact Except.ok.inj h ▸ hle

theorem exists_of_snap_one {x : Binary64} {n : Number} (h : snap (.int 1) x = .ok n) :
    ∃ i : Int, n = .int i ∧ i.natAbs ≤ Binary64.greatest := by
  obtain ⟨one, hone, -⟩ := Binary64.exists_ofInt? (i := 1) (by decide +kernel)
  have hstep : (Number.int 1).toFloat = .ok one := by
    change Number.ofInt 1 = .ok one
    rw [Number.ofInt, hone]
  have hnumber : (Value.int 1).toNumber = .ok (.int 1) := rfl
  unfold snap at h
  rw [if_pos (by rfl), hnumber] at h
  simp only [Bind.bind, Except.bind, hstep] at h
  generalize (x.div one).add _ = y at h
  cases hi : (Number.float y).floor with
  | error e => rw [hi] at h; cases h
  | ok i =>
      rw [hi] at h
      refine ⟨i * 1, (Except.ok.inj h).symm, ?_⟩
      rw [Int.mul_one]
      exact le_greatest_of_floor hi

theorem settle_int (i : Int) : settle (.int i) = .ok (.int i) := by
  have hsame : (Number.int i).same (.int i) = true := by simp [Number.same, Number.compare?]
  have ht : (Number.int i).truncate = .ok i := rfl
  rw [settle, ht]
  exact congrArg Except.ok (if_pos hsame)

/-- A number field for whole numbers from zero on holds such a number. -/
theorem exists_of_coerce_whole (hk : s.kind = .number) (hp : s.precision = .int 1)
    (hmin : s.min = .int 0) (hmax : s.max = .null) (h : s.coerce u = .ok v) :
    ∃ i : Int, v = .int i ∧ 0 ≤ i ∧ i.natAbs ≤ Binary64.greatest := by
  rw [coerce, hk] at h
  obtain ⟨x, n, m, k, -, hsnap, hraise, hlower, hsettle⟩ := exists_of_coerceNumber h
  obtain ⟨i, rfl, hle⟩ := exists_of_snap_one (hp ▸ hsnap)
  obtain rfl := Except.ok.inj ((lowerTo_null _).symm.trans (hmax ▸ hlower))
  have hraised : raiseTo (.int 0) (.int i) = .ok ((Number.int i).max (.int 0)) := by
    rw [raiseTo, if_neg (by simp)]
    rfl
  obtain rfl := Except.ok.inj (hraised.symm.trans (hmin ▸ hraise))
  unfold Number.max at hsettle
  split at hsettle
  · rw [settle_int] at hsettle
    exact ⟨0, (Except.ok.inj hsettle).symm, Int.le_refl 0, Nat.zero_le _⟩
  · rename_i hnot
    rw [settle_int] at hsettle
    have hpos : 0 ≤ i := by
      refine Int.not_lt.mp fun hneg => hnot ?_
      simp [Number.lt, Number.compare?, compare, compareOfLessAndEq, hneg]
    exact ⟨i, (Except.ok.inj hsettle).symm, hpos, hle⟩

theorem numeric_of_coerce_whole (hk : s.kind = .number) (hp : s.precision = .int 1)
    (hmin : s.min = .int 0) (hmax : s.max = .null) (h : s.coerce u = .ok v) : v.Numeric := by
  obtain ⟨i, rfl, -, hle⟩ := exists_of_coerce_whole hk hp hmin hmax h
  exact Value.numeric_int hle

end Socket

end Blockwork
