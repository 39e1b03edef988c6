import Blockwork.Proofs.Lightening

/-!
# Fractions near a number

A fraction that is nearer to a number than by one part in `2^54` is rounded to that number
(`Binary64.round_near`).  Half of the distance to the next number is never less than that; below the
least number of a binade it is just as much.  Fractions of one value are rounded alike
(`Binary64.round_congr`).
-/

namespace Blockwork.Binary64

variable {negative : Bool} {m n c num den : Nat} {e : Int}

/-- What is kept of a number is the multiple of its last bit that it is nearest to.  Of two that are
equally near it is the greater one, where something is known to be cut off. -/
theorem kept_eq {inexact : Bool} (hle : c * 2 ^ excess n ≤ n + 2 ^ (excess n - 1))
    (hlt : n < c * 2 ^ excess n + 2 ^ (excess n - 1))
    (hhalf : c * 2 ^ excess n = n + 2 ^ (excess n - 1) → inexact = true) :
    n >>> excess n + (roundsUp n inexact).toNat = c := by
  have hpow : 2 ^ excess n = 2 * 2 ^ (excess n - 1) := by
    rw [← Nat.pow_succ', Nat.succ_eq_add_one, Nat.sub_add_cancel (one_le_excess n)]
  have hpos := Nat.two_pow_pos (excess n - 1)
  have hsplit := Nat.div_add_mod n (2 ^ excess n)
  have hrest := Nat.mod_lt n (Nat.two_pow_pos (excess n))
  simp only [roundsUp, Nat.shiftRight_eq_div_pow, Nat.one_shiftLeft]
  rw [hpow] at hle hlt hhalf hsplit hrest ⊢
  generalize n / (2 * 2 ^ (excess n - 1)) = q at hsplit ⊢
  generalize n % (2 * 2 ^ (excess n - 1)) = r at hsplit hrest ⊢
  generalize 2 ^ (excess n - 1) = half at *
  have hq : q = c ∨ q + 1 = c := by
    have hqc : q < c + 1 := by
      refine Nat.lt_of_mul_lt_mul_left (a := 2 * half) ?_
      rw [Nat.mul_comm (2 * half) (c + 1), Nat.add_mul]
      omega
    have hcq : c < q + 2 := by
      refine Nat.lt_of_mul_lt_mul_left (a := 2 * half) ?_
      rw [Nat.mul_add, Nat.mul_comm (2 * half) c]
      omega
    omega
  rw [Nat.mul_comm] at hsplit
  rcases hq with rfl | rfl
  · -- less than half is cut off
    have hless : r < half := by omega
    simp [Nat.not_lt.mpr hless.le, hless.ne]
  · rw [Nat.add_mul, Nat.one_mul] at hle hhalf
    have hmore : half ≤ r := by omega
    have hup : half < r ∨ r = half ∧ inexact = true := by
      rcases Nat.lt_or_eq_of_le hmore with h | h
      · exact .inl h
      · exact .inr ⟨h.symm, hhalf (by omega)⟩
    rcases hup with h | ⟨rfl, rfl⟩
    · simp [h]
    · simp

/-- What is packed in the form of a number is that number. -/
theorem pack_eq (h : Fits m e) {le least full} :
    pack negative m e le least full = .finite negative m e h := by
  have hm := h.lt
  rw [pack, dif_neg (by omega), dif_pos h.greatest]

/-- What has just reached `2^53` is packed as half of it with the next exponent. -/
theorem pack_carry (hc : c = 0x20000000000000) (h : Fits 0x10000000000000 (e + 1))
    {le least full} :
    pack negative c e le least full = .finite negative 0x10000000000000 (e + 1) h := by
  rw [pack, dif_pos hc, dif_pos h.greatest]

/-- What is kept of a fraction. -/
def kept (num den : Nat) : Nat :=
  (num <<< 1075 / den) >>> excess (num <<< 1075 / den) +
    (roundsUp (num <<< 1075 / den) (num <<< 1075 % den != 0)).toNat

theorem round_of_kept (h : Fits m e) (hm : kept num den = m)
    (he : (excess (num <<< 1075 / den) : Int) - 1075 = e) :
    round negative num den = .finite negative m e h := by
  subst hm he
  unfold round
  exact pack_eq h

theorem round_of_carry (h : Fits 0x10000000000000 e) (hm : kept num den = 0x20000000000000)
    (he : (excess (num <<< 1075 / den) : Int) - 1075 + 1 = e) :
    round negative num den = .finite negative 0x10000000000000 e h := by
  subst he
  unfold round
  exact pack_carry hm h

/-- Whether `num / den` is nearer to `m · 2^e` than by one part in `2^54`. -/
structure Near (num den m : Nat) (e : Int) : Prop where
  above : m <<< e.toNat * den * 2 ^ 54 < num * denominator e * 2 ^ 54 + m <<< e.toNat * den
  below : num * denominator e * 2 ^ 54 < m <<< e.toNat * den * 2 ^ 54 + m <<< e.toNat * den

/-- In units of the last bit that rounding looks at. -/
theorem Near.shifted (h : Near num den m e) (hleast : -1074 ≤ e) :
    m * 2 ^ (e + 1075).toNat * den * 2 ^ 54 <
        num <<< 1075 * 2 ^ 54 + m * 2 ^ (e + 1075).toNat * den ∧
      num <<< 1075 * 2 ^ 54 <
        m * 2 ^ (e + 1075).toNat * den * 2 ^ 54 + m * 2 ^ (e + 1075).toNat * den := by
  obtain ⟨above, below⟩ := h
  -- the power stays a name, lest it be expanded
  obtain ⟨power, hpower⟩ : ∃ power, power = 1075 := ⟨_, rfl⟩
  have hmul : m <<< e.toNat * 2 ^ power = m * 2 ^ (e + 1075).toNat * denominator e := by
    rw [Nat.shiftLeft_eq, denominator, Nat.one_shiftLeft, Nat.mul_assoc, Nat.mul_assoc,
      ← Nat.pow_add, ← Nat.pow_add, show e.toNat + power = (e + 1075).toNat + (-e).toNat by omega]
  rw [← hpower, Nat.shiftLeft_eq]
  generalize m * 2 ^ (e + 1075).toNat = grid at hmul ⊢
  generalize hx : m <<< e.toNat = x at *
  have hpos := denominator_pos e
  have htwo := Nat.two_pow_pos power
  generalize denominator e = d at *
  constructor
  · refine Nat.lt_of_mul_lt_mul_left (a := d) ?_
    calc d * (grid * den * 2 ^ 54) = grid * d * (den * 2 ^ 54) := by ring
      _ = x * den * 2 ^ 54 * 2 ^ power := by rw [← hmul]; ring
      _ < (num * d * 2 ^ 54 + x * den) * 2 ^ power := Nat.mul_lt_mul_of_pos_right above htwo
      _ = d * (num * 2 ^ power * 2 ^ 54) + x * 2 ^ power * den := by ring
      _ = d * (num * 2 ^ power * 2 ^ 54 + grid * den) := by rw [hmul]; ring
  · refine Nat.lt_of_mul_lt_mul_left (a := d) ?_
    calc d * (num * 2 ^ power * 2 ^ 54) = num * d * 2 ^ 54 * 2 ^ power := by ring
      _ < (x * den * 2 ^ 54 + x * den) * 2 ^ power := Nat.mul_lt_mul_of_pos_right below htwo
      _ = x * 2 ^ power * (den * 2 ^ 54 + den) := by ring
      _ = d * (grid * den * 2 ^ 54 + grid * den) := by rw [hmul]; ring

section

variable {grid half rest : Nat} (hrest : rest < den) (hg : grid ≤ 2 ^ 54 * half)

include hrest hg

/-- How far below a number what is near to it can be. -/
theorem le_add_half (h : grid * den * 2 ^ 54 < (den * n + rest) * 2 ^ 54 + grid * den) :
    grid ≤ n + half ∧ (grid = n + half → rest ≠ 0) := by
  have hlt : grid * den < (n + half) * den + rest := by
    have hgrid : grid * den ≤ half * den * 2 ^ 54 := by
      calc grid * den ≤ 2 ^ 54 * half * den := Nat.mul_le_mul_right den hg
        _ = half * den * 2 ^ 54 := by ring
    have hsum : (n + half) * den + rest = den * n + rest + half * den := by ring
    omega
  constructor
  · by_contra hmore
    have hmul := Nat.mul_le_mul_right den (Nat.lt_of_not_le hmore)
    rw [Nat.succ_mul] at hmul
    omega
  · rintro rfl rfl
    omega

omit hrest in
/-- How far above a number what is near to it can be. -/
theorem lt_add_half (h : (den * n + rest) * 2 ^ 54 < grid * den * 2 ^ 54 + grid * den) :
    n < grid + half := by
  have hgrid : grid * den ≤ half * den * 2 ^ 54 := by
    calc grid * den ≤ 2 ^ 54 * half * den := Nat.mul_le_mul_right den hg
      _ = half * den * 2 ^ 54 := by ring
  refine Nat.lt_of_mul_lt_mul_left (a := den) ?_
  have hsum : den * (grid + half) = grid * den + half * den := by ring
  omega

end

/-- How many bits are cut off of what is near to a number and in its binade. -/
theorem excess_of_near {k : Nat} (hm : m < 2 ^ 53) (hlt : n < m * 2 ^ (k + 1) + 2 ^ k)
    (hbig : k = 0 ∨ 2 ^ (k + 53) ≤ n) : excess n = k + 1 := by
  have hgrid : m * 2 ^ (k + 1) + 2 ^ (k + 1) ≤ 2 ^ (k + 1 + 53) := by
    rw [Nat.add_comm (k + 1) 53, Nat.pow_add 2 53, ← Nat.succ_mul]
    exact Nat.mul_le_mul_right _ hm
  have hpow : 2 ^ (k + 1) = 2 * 2 ^ k := Nat.pow_succ'
  refine Nat.le_antisymm (excess_le (by omega) (Nat.le_add_left 1 k)) ?_
  rcases hbig with rfl | hbig
  · exact one_le_excess n
  · exact lt_excess hbig

section

variable {j : Nat} (hsmall : n < 2 ^ (j + 1 + 53))

theorem binade_eq (j : Nat) : 2 ^ (j + 1 + 53) = 0x10000000000000 * 2 ^ (j + 1 + 1) := by
  rw [show j + 1 + 53 = 52 + (j + 1 + 1) by omega, Nat.pow_add]

include hsmall

/-- What is near to a number, and below its binade, is near to the least number of the binade. -/
theorem eq_least_of_near (hfull : 0x10000000000000 ≤ m)
    (hle : m * 2 ^ (j + 1 + 1) ≤ n + 2 ^ (j + 1)) : m = 0x10000000000000 := by
  have hless : m < 0x10000000000001 := by
    refine Nat.lt_of_mul_lt_mul_right (a := 2 ^ (j + 1 + 1)) ?_
    have hpow : 2 ^ (j + 1 + 1) = 2 * 2 ^ (j + 1) := Nat.pow_succ'
    rw [show 0x10000000000001 = 0x10000000000000 + 1 from rfl, Nat.succ_mul, ← binade_eq]
    omega
  omega

/-- Of what is near to the least number of a binade and below it one bit less is cut off. -/
theorem excess_of_near_least (hle : 0x10000000000000 * 2 ^ (j + 1 + 1) ≤ n + 2 ^ j) :
    excess n = j + 1 := by
  have hnear : 2 ^ (j + 53) ≤ n := by
    have hdouble : 2 ^ (j + 1 + 53) = 2 * 2 ^ (j + 53) := by
      rw [← Nat.pow_succ', show j + 1 + 53 = j + 53 + 1 by omega]
    have hless : 2 ^ j ≤ 2 ^ (j + 53) := Nat.pow_le_pow_right (by decide) (by omega)
    rw [← binade_eq, hdouble] at hle
    omega
  exact Nat.le_antisymm (excess_le hsmall (Nat.le_add_left 1 j)) (lt_excess hnear)

end

/-- **What is nearer to a number than by one part in `2^54` is rounded to it.** -/
theorem round_near (h : Fits m e) (hd : 0 < den) (hn : Near num den m e) :
    round negative num den = .finite negative m e h := by
  obtain ⟨above, below⟩ := hn.shifted h.least
  obtain ⟨k, rfl⟩ : ∃ k : Nat, e = k - 1074 := ⟨(e + 1074).toNat, by have := h.least; omega⟩
  rw [show ((k : Int) - 1074 + 1075).toNat = k + 1 by omega] at above below
  rw [← Nat.div_add_mod (num <<< 1075) den] at above below
  have hrest := Nat.mod_lt (num <<< 1075) hd
  have hkept : kept num den = (num <<< 1075 / den) >>> excess (num <<< 1075 / den) +
    (roundsUp (num <<< 1075 / den) (num <<< 1075 % den != 0)).toNat := rfl
  generalize hnq : num <<< 1075 / den = n at *
  generalize num <<< 1075 % den = rest at *
  have hfine : m * 2 ^ (k + 1) ≤ 2 ^ 54 * 2 ^ k := by
    rw [← Nat.pow_add, show 54 + k = 53 + (k + 1) by omega, Nat.pow_add 2 53]
    exact Nat.mul_le_mul_right _ h.lt.le
  obtain ⟨hle, hexact⟩ := le_add_half hrest hfine above
  have hlt := lt_add_half hfine below
  by_cases hbig : k = 0 ∨ 2 ^ (k + 53) ≤ n
  · have hexcess := excess_of_near h.lt hlt hbig
    refine round_of_kept h (hkept.trans (kept_eq ?_ ?_ ?_)) ?_
    · rw [hexcess]
      exact hle
    · rw [hexcess]
      exact hlt
    · rw [hexcess]
      exact fun he => bne_iff_ne.mpr (hexact he)
    · rw [hnq, hexcess]
      omega
  · -- the number is the least of its binade, and what is near to it below is in the binade before
    obtain ⟨hk, hsmall⟩ := not_or.mp hbig
    have hsmall := Nat.lt_of_not_le hsmall
    obtain ⟨j, rfl⟩ : ∃ j, k = j + 1 := Nat.exists_eq_succ_of_ne_zero hk
    obtain rfl : m = 0x10000000000000 :=
      eq_least_of_near hsmall (h.full.resolve_right (by omega)) hle
    have hquarter : 0x10000000000000 * 2 ^ (j + 1 + 1) = 2 ^ 54 * 2 ^ j := by
      rw [← binade_eq, ← Nat.pow_add, show j + 1 + 53 = 54 + j by omega]
    obtain ⟨hle, hexact⟩ := le_add_half hrest hquarter.le above
    have hexcess := excess_of_near_least hsmall hle
    have hcarry : 0x20000000000000 * 2 ^ (j + 1) = 0x10000000000000 * 2 ^ (j + 1 + 1) := by
      rw [Nat.pow_succ 2 (j + 1)]
      ring
    refine round_of_carry h (hkept.trans (kept_eq ?_ ?_ ?_)) ?_
    · rw [hexcess, hcarry]
      exact hle
    · rw [hexcess, hcarry, ← binade_eq]
      exact Nat.lt_add_right _ hsmall
    · rw [hexcess, hcarry]
      exact fun he => bne_iff_ne.mpr (hexact he)
    · rw [hnq, hexcess]
      omega

/-! ### Fractions of one value -/

/-- Fractions of one value are rounded alike. -/
theorem round_congr {num' den' : Nat} (hd : 0 < den) (hd' : 0 < den')
    (h : num * den' = num' * den) : round negative num den = round negative num' den' := by
  have hscaled {a b k : Nat} (hk : 0 < k) :
      round negative (a * k) (b * k) = round negative a b := by
    have hshift (p : Nat) : (a * k) <<< p = a <<< p * k := by
      rw [Nat.shiftLeft_eq, Nat.shiftLeft_eq, Nat.mul_right_comm]
    have hquot : (a * k) <<< 1075 / (b * k) = a <<< 1075 / b := by
      rw [hshift, Nat.mul_div_mul_right _ _ hk]
    have hrest : ((a * k) <<< 1075 % (b * k) != 0) = (a <<< 1075 % b != 0) := by
      rw [hshift, Nat.mul_mod_mul_right, Bool.eq_iff_iff, bne_iff_ne, bne_iff_ne,
        Nat.mul_ne_zero_iff]
      exact and_iff_left hk.ne'
    unfold round
    simp only [hquot, hrest]
  rw [← hscaled hd', h, Nat.mul_comm den, hscaled hd]

theorem neg_round (num den : Nat) : (round false num den).neg = round true num den := by
  unfold round pack
  extract_lets n up m
  split
  · split
    · rfl
    · rfl
  · split
    · rfl
    · rfl

end Blockwork.Binary64
