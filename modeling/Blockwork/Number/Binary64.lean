/-!
# Binary64

The double-precision numbers of IEEE 754, as exact data: a finite number is its sign, its
significand and its exponent, and the last two are in the one form the format stores
(`Binary64.Fits`).  Every operation is computed on whole numbers and rounded once, to the nearest
number of the format and to the even one of two that are equally near (`Binary64.round`).  The
arithmetic of the machine is not used, so each result can be read off its definition.
-/

namespace Blockwork

/-- `m · 2^e` in the form the format stores: fifty-three bits, all of them used unless the
exponent is the least. -/
structure Binary64.Fits (m : Nat) (e : Int) : Prop where
  lt : m < 0x20000000000000
  least : -1074 ≤ e
  greatest : e ≤ 971
  full : 0x10000000000000 ≤ m ∨ e = -1074

/-- A double-precision number.  What is not a number carries a payload, by which its occurrences are
told apart (`Binary64.alike`). -/
inductive Binary64 where
  | nan (payload : Nat)
  | infinite (negative : Bool)
  | finite (negative : Bool) (m : Nat) (e : Int) (fits : Binary64.Fits m e)
  deriving DecidableEq

namespace Binary64

/-- What is not a number, where nothing is known of it: the outcome of an operation without a
result. -/
def notANumber : Binary64 := .nan 0

/-- Zero with a sign. -/
def zero (negative : Bool) : Binary64 :=
  .finite negative 0 (-1074) ⟨by decide, by decide, by decide, .inr rfl⟩

/-- `± m · 2^e`, where `m` may have just reached `2^53`; beyond the greatest number it is an
infinity. -/
def pack (negative : Bool) (m : Nat) (e : Int) (le : m ≤ 0x20000000000000)
    (least : -1074 ≤ e) (full : 0x10000000000000 ≤ m ∨ e = -1074) : Binary64 :=
  if h : m = 0x20000000000000 then
    if g : e + 1 ≤ 971 then
      .finite negative 0x10000000000000 (e + 1) ⟨by decide, by omega, g, .inl (Nat.le_refl _)⟩
    else .infinite negative
  else
    if g : e ≤ 971 then .finite negative m e ⟨by omega, least, g, full⟩
    else .infinite negative

/-- How many of the last bits of `n` do not fit: all but fifty-three, and at least one. -/
def excess (n : Nat) : Nat := max 1 (n.log2 + 1 - 53)

theorem one_le_excess (n : Nat) : 1 ≤ excess n := Nat.le_max_left ..

theorem shiftRight_excess_lt (n : Nat) : n >>> excess n < 0x20000000000000 := by
  rw [Nat.shiftRight_eq_div_pow, show 0x20000000000000 = 2 ^ 53 from rfl,
    Nat.div_lt_iff_lt_mul (Nat.two_pow_pos _), ← Nat.pow_add]
  refine Nat.lt_of_lt_of_le Nat.lt_log2_self (Nat.pow_le_pow_right (by decide) ?_)
  have : n.log2 + 1 - 53 ≤ excess n := Nat.le_max_right ..
  omega

theorem le_shiftRight_excess (n : Nat) (h : excess n ≠ 1) :
    0x10000000000000 ≤ n >>> excess n := by
  have hx : excess n = n.log2 + 1 - 53 := by unfold excess at h ⊢; omega
  have hn : n ≠ 0 := by
    rintro rfl
    exact h (by decide)
  rw [Nat.shiftRight_eq_div_pow, show 0x10000000000000 = 2 ^ 52 from rfl,
    Nat.le_div_iff_mul_le (Nat.two_pow_pos _), ← Nat.pow_add]
  refine Nat.le_trans (Nat.pow_le_pow_right (by decide) ?_) (Nat.log2_self_le hn)
  have := one_le_excess n
  omega

/-- Whether the part of `n` below its first kept bit, with something more behind it when
`inexact`, is rounded up. -/
def roundsUp (n : Nat) (inexact : Bool) : Bool :=
  let rest := n % (1 <<< excess n)
  let half := 1 <<< (excess n - 1)
  decide (half < rest) ||
    (rest == half && (inexact || (n >>> excess n) % 2 == 1))

/-- The number nearest to `± num / den`, of two equally near ones the even one. -/
def round (negative : Bool) (num den : Nat) : Binary64 :=
  let n := (num <<< 1075) / den
  let up := roundsUp n ((num <<< 1075) % den != 0)
  let m := n >>> excess n + up.toNat
  pack negative m ((excess n : Int) - 1075)
    (by have := shiftRight_excess_lt n; have := Bool.toNat_le up; omega)
    (by have := one_le_excess n; omega)
    (by
      by_cases h : excess n = 1
      · exact .inr (by omega)
      · exact .inl (Nat.le_trans (le_shiftRight_excess n h) (Nat.le_add_right ..)))

/-- The number nearest to `n / d`; a result of zero takes the sign given for it. -/
def ofFraction (zeroNegative : Bool) (n : Int) (d : Nat) : Binary64 :=
  if n = 0 then zero zeroNegative else round (decide (n < 0)) n.natAbs d

/-- The numerator of a finite number over `denominator`. -/
def numerator (negative : Bool) (m : Nat) (e : Int) : Int :=
  let n : Int := (m <<< e.toNat : Nat)
  if negative then -n else n

/-- A power of two that makes a number with exponent `e` whole. -/
def denominator (e : Int) : Nat := 1 <<< (-e).toNat

/-- A finite number as a fraction with a power of two below. -/
def fraction? : Binary64 → Option (Int × Nat)
  | .finite s m e _ => some (numerator s m e, denominator e)
  | _ => none

/-- The sign, also of zeros and infinities. -/
def isNegative : Binary64 → Bool
  | .nan _ => false
  | .infinite s | .finite s _ _ _ => s

def isFinite : Binary64 → Bool
  | .finite .. => true
  | _ => false

/-- Zero of either sign. -/
def isZero : Binary64 → Bool
  | .finite _ m _ _ => m == 0
  | _ => false

/-- The whole number, when it is one. -/
def toInt? (x : Binary64) : Option Int :=
  match x.fraction? with
  | some (n, d) => if n % d = 0 then some (n / d) else none
  | none => none

/-- The number nearest to a whole number; `none` when it is beyond the greatest. -/
def ofInt? (i : Int) : Option Binary64 :=
  match ofFraction false i 1 with
  | .infinite _ => none
  | x => some x

/-! ### Arithmetic -/

def neg : Binary64 → Binary64
  | .nan n => .nan n
  | .infinite s => .infinite (!s)
  | .finite s m e h => .finite (!s) m e h

/-- The sum; a zero out of two numbers that are not both negative is positive. -/
def add : Binary64 → Binary64 → Binary64
  | .nan _, _ | _, .nan _ => notANumber
  | .infinite s, .infinite t => if s = t then .infinite s else notANumber
  | .infinite s, _ => .infinite s
  | _, .infinite t => .infinite t
  | .finite s m e _, .finite t k f _ =>
    ofFraction (s && t)
      (numerator s m e * denominator f + numerator t k f * denominator e)
      (denominator e * denominator f)

def sub (x y : Binary64) : Binary64 := x.add y.neg

def mul : Binary64 → Binary64 → Binary64
  | .nan _, _ | _, .nan _ => notANumber
  | .infinite s, y => if y.isZero then notANumber else .infinite (s != y.isNegative)
  | x, .infinite t => if x.isZero then notANumber else .infinite (x.isNegative != t)
  | .finite s m e _, .finite t k f _ =>
    ofFraction (s != t) (numerator s m e * numerator t k f) (denominator e * denominator f)

/-- The quotient; by a zero it is an infinity, or no number for zero by zero. -/
def div : Binary64 → Binary64 → Binary64
  | .nan _, _ | _, .nan _ => notANumber
  | .infinite s, y => if y.isFinite then .infinite (s != y.isNegative) else notANumber
  | x, .infinite t => zero (x.isNegative != t)
  | .finite s m e _, .finite t k f _ =>
    if k = 0 then
      if m = 0 then notANumber else .infinite (s != t)
    else if m = 0 then zero (s != t)
    else round (s != t) ((m <<< e.toNat) * denominator f) ((k <<< f.toNat) * denominator e)

/-- The remainder of a division whose quotient is rounded to the floor: it has the divisor's
sign.  A remainder that is only the dividend is brought to that sign by one rounded addition. -/
def modulo : Binary64 → Binary64 → Binary64
  | .finite s m e _, y@(.finite t k f _) =>
    if k = 0 then notANumber
    else
      let n := numerator s m e * denominator f
      let d := numerator t k f * denominator e
      let r := n.tmod d
      if r = 0 then zero t
      else
        let rest := ofFraction s r (denominator e * denominator f)
        if (decide (r < 0)) = t then rest else rest.add y
  | .finite s m e h, .infinite t =>
    if m = 0 then zero t
    else if s = t then .finite s m e h else .infinite t
  | _, _ => notANumber

/-! ### Whole parts -/

/-- The greatest whole number that is not above. -/
def floor? (x : Binary64) : Option Int :=
  x.fraction?.map fun (n, d) => n / d

/-- The whole part, toward zero. -/
def truncate? (x : Binary64) : Option Int :=
  x.fraction?.map fun (n, d) => n.tdiv d

/-- The nearest whole number, of two equally near ones the even one. -/
def nearest? (x : Binary64) : Option Int :=
  x.fraction?.map fun (n, d) =>
    let q := n / d
    let r := 2 * (n % d)
    if r < d then q else if r > d then q + 1 else if q % 2 = 0 then q else q + 1

/-! ### Order

The numbers are ordered by value, with the two zeros equal; `nan` is not below, above or equal to
anything. -/

/-- The order of two numbers, where they have one. -/
def compare? : Binary64 → Binary64 → Option Ordering
  | .nan _, _ | _, .nan _ => none
  | .infinite s, .infinite t => some (compare t s)
  | .infinite s, _ => some (if s then .lt else .gt)
  | _, .infinite t => some (if t then .gt else .lt)
  | .finite s m e _, .finite t k f _ =>
    some (compare (numerator s m e * denominator f) (numerator t k f * denominator e))

def lt (x y : Binary64) : Bool := x.compare? y == some .lt

def le (x y : Binary64) : Bool := x.lt y || x.compare? y == some .eq

/-- Equality of values: the zeros are equal, and `nan` is not equal to itself. -/
def same (x y : Binary64) : Bool := x.compare? y == some .eq

/-- Whether two numbers are equal or one and the same: a `nan` is itself where its payload tells it
from all others, and is never itself where nothing is known of it. -/
def alike : Binary64 → Binary64 → Bool
  | .nan m, .nan n => m == n && m != 0
  | x, y => x.same y

end Binary64

end Blockwork
