import Blockwork.Proofs.Domains
import Blockwork.Proofs.Exactness

/-!
# Fields that keep what they hold

What a field holds is brought into the domain of the field again whenever it is written once more.  A
text and a colour are then what they were, and so is a number in a field without a precision.  With a
precision, a number is rounded before it is brought between the bounds, so that a bound may be held
that is not a multiple of the precision, and that is rounded away when it is written again
(`Socket.not_always_kept`).  Whole numbers stay what they are just where the field keeps its own bounds
(`Socket.Whole.keeps_iff`), for instance where these are multiples of the precision.
-/

namespace Blockwork

/-- Whether a value is not a whole number beyond those that double precision computes with
exactly. -/
def Value.Small (v : Value) : Prop := ∀ i, v = .int i → i.natAbs < 2 ^ 51

theorem Value.small_int {i : Int} : (Value.int i).Small ↔ i.natAbs < 2 ^ 51 :=
  ⟨fun h => h i rfl, fun h _ hi => Value.int.inj hi ▸ h⟩

namespace Binary64

variable {x : Binary64} {i : Int}

theorem Halves.level (h : x.Halves (2 * i)) : x.level = (Number.int i).level := by
  obtain ⟨s, m, e, hm, rfl⟩ := exists_finite h.isFinite
  rw [halves_finite] at h
  have hd : (denominator e : ℚ) ≠ 0 := by
    exact_mod_cast Nat.pos_iff_ne_zero.mp (denominator_pos e)
  have hnum : (numerator s m e : ℚ) = i * denominator e := by
    have hint : numerator s m e = i * denominator e := by
      rw [Int.mul_assoc] at h
      omega
    exact_mod_cast hint
  change (((numerator s m e : ℚ) / denominator e : ℚ) : WithBot (WithTop ℚ)) = ((i : ℚ) : _)
  rw [hnum, mul_div_cancel_right₀ _ hd]

theorem Halves.truncate (h : x.Halves (2 * i)) : (Number.float x).truncate = .ok i := by
  obtain ⟨s, m, e, hm, rfl⟩ := exists_finite h.isFinite
  rw [halves_finite, Int.mul_assoc] at h
  have hd : (denominator e : Int) ≠ 0 := by
    exact_mod_cast Nat.pos_iff_ne_zero.mp (denominator_pos e)
  have hnum : numerator s m e = i * denominator e := by omega
  refine congrArg Except.ok (?_ : (numerator s m e).tdiv (denominator e) = i)
  rw [hnum, Int.mul_tdiv_cancel _ hd]

end Binary64

namespace Socket

variable {s : Socket} {u v w b : Value} {n : Number} {i j p : Int} {x : Binary64}

/-- Whether a field keeps the bounds that it declares. -/
def KeepsBounds (s : Socket) : Prop := ∀ b, b = s.min ∨ b = s.max → b ≠ .null → s.coerce b = .ok b

/-- Whether a number field has whole numbers for bounds, in this order, and a positive whole number
for a precision, as far as it declares them. -/
structure Whole (s : Socket) : Prop where
  number : s.kind = .number
  min : s.min = .null ∨ ∃ lo, s.min = .int lo
  max : s.max = .null ∨ ∃ hi, s.max = .int hi
  precision : s.precision = .null ∨ ∃ p, s.precision = .int p ∧ 0 < p
  ordered : ∀ lo hi, s.min = .int lo → s.max = .int hi → lo ≤ hi

/-! ### Texts and colours -/

theorem coerce_coerce_text (hk : s.kind = .text) (h : s.coerce u = .ok v) : s.coerce v = .ok v := by
  rw [coerce, hk] at h ⊢
  obtain rfl := Except.ok.inj h
  rfl

theorem coerce_coerce_colour (hk : s.kind = .colour) (h : s.coerce u = .ok v) :
    s.coerce v = .ok v := by
  obtain ⟨c, rfl⟩ := exists_of_coerce_colour hk h
  have hread : Rgb.ofValue? (.text c.hex) = some c := c.ofHex?_hex
  simp only [coerce, hk, hread]

/-! ### Numbers between the bounds -/

theorem readNumber_float (hx : x.isFinite = true) : readNumber v (.float x) = .ok x := by
  change (if x.isFinite then Except.ok x else _) = _
  rw [if_pos hx]

/-- A small whole number is read as it is. -/
theorem exists_readNumber_int (hi : i.natAbs < 2 ^ 52) :
    ∃ x, readNumber v (.int i) = .ok x ∧ x.Halves (2 * i) := by
  obtain ⟨x, hx, hhalves⟩ := Binary64.exists_halves_ofInt hi
  refine ⟨x, ?_, hhalves⟩
  have hread : (Value.int i).toFloat = .ok x := hx
  rw [readNumber, hread]
  exact if_pos hhalves.isFinite

theorem settle_halves (h : x.Halves (2 * i)) : settle (.float x) = .ok (.int i) := by
  have hsame : (Number.float x).same (.int i) = true := by
    rw [Number.same_iff_level (Number.isNaN_of_isFinite (a := .float x) h.isFinite) rfl]
    exact h.level
  rw [settle, h.truncate]
  exact congrArg Except.ok (if_pos hsame)

theorem snap_unstepped (hp : v.isTruthy = false) (x : Binary64) : snap v x = .ok (.float x) := by
  rw [snap, hp]
  rfl

/-- Whether the bounds of a field are numbers, where it declares any. -/
def Measured (s : Socket) : Prop :=
  ∀ b, b = s.min ∨ b = s.max → b = .null ∨ ∃ n, b.toNumber = .ok n

theorem measured_of_coerceNumber (h : s.coerceNumber u = .ok v) : s.Measured := by
  obtain ⟨_, _, m, _, -, -, hraise, hlower, -⟩ := exists_of_coerceNumber h
  rintro b (rfl | rfl)
  · unfold raiseTo at hraise
    split at hraise
    · exact .inl ‹_›
    · obtain ⟨lo, hlo, -⟩ := exists_of_bind_ok hraise
      exact .inr ⟨lo, hlo⟩
  · unfold lowerTo at hlower
    split at hlower
    · exact .inl ‹_›
    · obtain ⟨hi, hhi, -⟩ := exists_of_bind_ok hlower
      exact .inr ⟨hi, hhi⟩

/-- A number that is between the bounds is not brought anywhere else. -/
theorem coerceNumber_of_spans (hm : s.Measured) (hs : s.Bounded) (hn : s.Spans n)
    (hread : readNumber s.name w = .ok x) (hsnap : snap s.precision x = .ok n) :
    s.coerceNumber w = settle n := by
  have hnn := Number.isNaN_of_isFinite hn.finite
  have hraised : raiseTo s.min n = .ok n := by
    obtain hmin | ⟨lo, hlo⟩ := hm s.min (.inl rfl)
    · exact if_pos hmin
    · unfold raiseTo
      split
      · rfl
      · have hfair := hs.lower lo (Value.number?_of_toNumber hlo)
        have hle := hn.lower lo (Value.number?_of_toNumber hlo)
        rw [Number.le_iff_level hfair hnn] at hle
        rw [hlo]
        refine congrArg Except.ok (if_neg ?_)
        rw [Number.lt_iff_level hnn hfair]
        exact not_lt.mpr hle
  have hlowered : lowerTo s.max n = .ok n := by
    obtain hmax | ⟨hi, hhi⟩ := hm s.max (.inr rfl)
    · exact if_pos hmax
    · unfold lowerTo
      split
      · rfl
      · have hfair := hs.upper hi (Value.number?_of_toNumber hhi)
        have hle := hn.upper hi (Value.number?_of_toNumber hhi)
        rw [Number.le_iff_level hnn hfair] at hle
        rw [hhi]
        refine congrArg Except.ok (if_neg ?_)
        rw [Number.lt_iff_level hfair hnn]
        exact not_lt.mpr hle
  unfold coerceNumber
  rw [hread]
  simp only [Bind.bind, Except.bind, hsnap, hraised, hlowered]

/-- A small whole number between the bounds is kept where there is no precision. -/
theorem coerceNumber_int (hm : s.Measured) (hs : s.Bounded) (hp : s.precision.isTruthy = false)
    (hn : s.Spans (.int i)) (hi : i.natAbs < 2 ^ 52) : s.coerceNumber (.int i) = .ok (.int i) := by
  obtain ⟨x, hread, hhalves⟩ := exists_readNumber_int (v := s.name) hi
  have hx : s.Spans (.float x) := hn.of_level hs hhalves.isFinite hhalves.level
  exact (coerceNumber_of_spans hm hs hx hread (snap_unstepped hp x)).trans (settle_halves hhalves)

/-- **A number field without a precision keeps what it holds.** -/
theorem coerce_coerce_unstepped (hk : s.kind = .number) (hs : s.Bounded)
    (hp : s.precision.isTruthy = false) (hu : s.coerce u = .ok w) (hw : w.Small) :
    s.coerce w = .ok w := by
  have hcoerce (v : Value) : s.coerce v = s.coerceNumber v := by rw [coerce, hk]
  rw [hcoerce] at hu ⊢
  have hm := measured_of_coerceNumber hu
  obtain ⟨n, rfl, hspans, hsettle⟩ := spans_of_coerceNumber hs hu
  cases n with
  | int i =>
      have hi := Value.small_int.mp hw
      exact coerceNumber_int hm hs hp hspans (by omega)
  | float x =>
      exact (coerceNumber_of_spans hm hs hspans (readNumber_float hspans.finite)
        (snap_unstepped hp x)).trans hsettle

/-! ### Whole numbers -/

/-- A whole number brought up to a lower bound, if there is one. -/
def raised (bound : Value) (i : Int) : Int :=
  match bound with
  | .int lo => if i < lo then lo else i
  | _ => i

/-- A whole number brought down to an upper bound, if there is one. -/
def lowered (bound : Value) (i : Int) : Int :=
  match bound with
  | .int hi => if hi < i then hi else i
  | _ => i

/-- A whole number brought between the bounds. -/
def confined (s : Socket) (i : Int) : Int := lowered s.max (raised s.min i)

theorem raiseTo_int (hb : b = .null ∨ ∃ lo, b = .int lo) (i : Int) :
    raiseTo b (.int i) = .ok (.int (raised b i)) := by
  obtain rfl | ⟨lo, rfl⟩ := hb
  · rfl
  · change Except.ok ((Number.int i).max (.int lo)) = .ok (.int (if i < lo then lo else i))
    rw [Number.max, Number.lt_int]
    split <;> simp_all

theorem lowerTo_int (hb : b = .null ∨ ∃ hi, b = .int hi) (i : Int) :
    lowerTo b (.int i) = .ok (.int (lowered b i)) := by
  obtain rfl | ⟨hi, rfl⟩ := hb
  · rfl
  · change Except.ok ((Number.int i).min (.int hi)) = .ok (.int (if hi < i then hi else i))
    rw [Number.min, Number.lt_int]
    split <;> simp_all

/-- What a whole number becomes is the number itself or a bound. -/
theorem confined_eq (s : Socket) (i : Int) :
    s.confined i = i ∨ s.min = .int (s.confined i) ∨ s.max = .int (s.confined i) := by
  have raised_eq (b : Value) (i : Int) : raised b i = i ∨ b = .int (raised b i) := by
    unfold raised
    split
    · split
      · exact .inr rfl
      · exact .inl rfl
    · exact .inl rfl
  have lowered_eq (b : Value) (i : Int) : lowered b i = i ∨ b = .int (lowered b i) := by
    unfold lowered
    split
    · split
      · exact .inr rfl
      · exact .inl rfl
    · exact .inl rfl
  obtain hmax | hmax := lowered_eq s.max (raised s.min i)
  · rw [confined, hmax]
    exact (raised_eq s.min i).imp_right .inl
  · exact .inr (.inr hmax)

/-- What is rounded to a precision is a multiple of it. -/
theorem exists_of_snap {n : Number} (hpos : 0 < p) (h : snap (.int p) x = .ok n) :
    ∃ i, n = .int i ∧ p ∣ i := by
  unfold snap at h
  rw [if_pos (Value.isTruthy_of_pos hpos)] at h
  obtain ⟨step, hstep, h⟩ := exists_of_bind_ok h
  obtain rfl : Number.int p = step := Except.ok.inj hstep
  obtain ⟨_, -, h⟩ := exists_of_bind_ok h
  obtain ⟨k, -, h⟩ := exists_of_bind_ok h
  exact ⟨k * p, (Except.ok.inj h).symm, Int.dvd_mul_left ..⟩

theorem exists_int_of_number? (hb : b = .null ∨ ∃ i, b = .int i) (hn : b.number? = some n) :
    ∃ i, b = .int i ∧ n = .int i := by
  obtain rfl | ⟨i, rfl⟩ := hb
  · cases hn
  · exact ⟨i, rfl, (Option.some.inj hn).symm⟩

namespace Whole

theorem bounded (h : s.Whole) : s.Bounded where
  lower lo hlo := by
    obtain ⟨i, -, rfl⟩ := exists_int_of_number? h.min hlo
    rfl
  upper hi hhi := by
    obtain ⟨i, -, rfl⟩ := exists_int_of_number? h.max hhi
    rfl
  ordered lo hi hlo hhi := by
    obtain ⟨i, hmin, rfl⟩ := exists_int_of_number? h.min hlo
    obtain ⟨j, hmax, rfl⟩ := exists_int_of_number? h.max hhi
    rw [Number.le_int, decide_eq_true (h.ordered i j hmin hmax)]

theorem coerce_eq (h : s.Whole) (v : Value) : s.coerce v = s.coerceNumber v := by
  rw [coerce, h.number]

/-- A number that was rounded to a precision is brought between the bounds. -/
theorem coerceNumber_of_snap (h : s.Whole) (hread : readNumber s.name u = .ok x)
    (hsnap : snap s.precision x = .ok (.int i)) :
    s.coerceNumber u = .ok (.int (s.confined i)) := by
  unfold coerceNumber
  rw [hread]
  simp only [Bind.bind, Except.bind, hsnap, raiseTo_int h.min, lowerTo_int h.max, settle_int]
  rfl

/-- A small multiple of the precision is not rounded. -/
theorem coerce_int_of_dvd (h : s.Whole) (hp : s.precision = .int p) (hpos : 0 < p)
    (hsmall : p.natAbs < 2 ^ 52) (hi : i.natAbs < 2 ^ 52) (hpi : p ∣ i) :
    s.coerce (.int i) = .ok (.int (s.confined i)) := by
  obtain ⟨j, rfl⟩ := exists_eq_mul_left_of_dvd hpi
  obtain ⟨x, hread, hhalves⟩ := exists_readNumber_int (v := s.name) hi
  have hj : j.natAbs < 2 ^ 52 := by
    rw [Int.natAbs_mul] at hi
    exact Nat.lt_of_le_of_lt (Nat.le_mul_of_pos_right _ (by omega)) hi
  rw [h.coerce_eq]
  refine h.coerceNumber_of_snap hread ?_
  rw [hp]
  exact snap_mul hpos hsmall hj hhalves

/-- What a field with a precision holds is a multiple of it, or a bound. -/
theorem exists_of_coerce (h : s.Whole) (hp : s.precision = .int p) (hpos : 0 < p)
    (hu : s.coerce u = .ok v) :
    ∃ i, v = .int i ∧ (p ∣ i ∧ s.confined i = i ∨ s.min = .int i ∨ s.max = .int i) := by
  rw [h.coerce_eq] at hu
  obtain ⟨x, n, _, _, hread, hsnap, -⟩ := exists_of_coerceNumber hu
  obtain ⟨i, rfl, hpi⟩ := exists_of_snap hpos (hp ▸ hsnap)
  rw [h.coerceNumber_of_snap hread hsnap] at hu
  refine ⟨s.confined i, (Except.ok.inj hu).symm, ?_⟩
  exact (s.confined_eq i).imp_left fun hi => by rw [hi, hi]; exact ⟨hpi, rfl⟩

/-- **A field that keeps its bounds keeps whatever it holds.** -/
theorem coerce_coerce (h : s.Whole) (hk : s.KeepsBounds) (hp : s.precision.Small)
    (hu : s.coerce u = .ok w) (hw : w.Small) : s.coerce w = .ok w := by
  obtain hprecision | ⟨p, hprecision, hpos⟩ := h.precision
  · exact coerce_coerce_unstepped h.number h.bounded (by rw [hprecision]; rfl) hu hw
  · obtain ⟨i, rfl, ⟨hpi, hi⟩ | hbound⟩ := h.exists_of_coerce hprecision hpos hu
    · rw [hprecision, Value.small_int] at hp
      rw [Value.small_int] at hw
      rw [h.coerce_int_of_dvd hprecision hpos (by omega) (by omega) hpi, hi]
    · exact hk (.int i) (hbound.imp Eq.symm Eq.symm) nofun

theorem measured (h : s.Whole) : s.Measured := by
  rintro b (rfl | rfl)
  · exact h.min.imp_right fun ⟨lo, hlo⟩ => ⟨.int lo, by rw [hlo]; rfl⟩
  · exact h.max.imp_right fun ⟨hi, hhi⟩ => ⟨.int hi, by rw [hhi]; rfl⟩

/-- What is not above the lower bound becomes the lower bound. -/
theorem confined_of_le (h : s.Whole) (hmin : s.min = .int i) (hj : j ≤ i) : s.confined j = i := by
  have hraised : raised s.min j = i := by
    rw [hmin, raised]
    split <;> omega
  rw [confined, hraised]
  obtain hmax | ⟨hi, hmax⟩ := h.max
  · rw [hmax, lowered]
    nofun
  · have := h.ordered i hi hmin hmax
    rw [hmax, lowered, if_neg (by omega)]

/-- What is not below the upper bound becomes the upper bound. -/
theorem confined_of_ge (h : s.Whole) (hmax : s.max = .int i) (hj : i ≤ j) : s.confined j = i := by
  have hraised : raised s.min j = j := by
    obtain hmin | ⟨lo, hmin⟩ := h.min
    · rw [hmin, raised]
      nofun
    · have := h.ordered lo i hmin hmax
      rw [hmin, raised, if_neg (by omega)]
  rw [confined, hraised, hmax, lowered]
  split <;> omega

theorem confined_bound (h : s.Whole) (hb : s.min = .int i ∨ s.max = .int i) : s.confined i = i :=
  hb.elim (h.confined_of_le · le_rfl) (h.confined_of_ge · le_rfl)

theorem spans_bound (h : s.Whole) (hb : s.min = .int i ∨ s.max = .int i) : s.Spans (.int i) := by
  refine ⟨rfl, fun lo hlo => ?_, fun hi hhi => ?_⟩
  · obtain ⟨j, hmin, rfl⟩ := exists_int_of_number? h.min hlo
    have hji : j ≤ i := by
      obtain hb | hb := hb
      · exact (Value.int.inj (hmin.symm.trans hb)).le
      · exact h.ordered j i hmin hb
    rw [Number.le_int, decide_eq_true hji]
  · obtain ⟨j, hmax, rfl⟩ := exists_int_of_number? h.max hhi
    have hij : i ≤ j := by
      obtain hb | hb := hb
      · exact h.ordered i j hb hmax
      · exact (Value.int.inj (hb.symm.trans hmax)).le
    rw [Number.le_int, decide_eq_true hij]

theorem keepsBounds_iff (h : s.Whole) : s.KeepsBounds ↔
    ∀ i, s.min = .int i ∨ s.max = .int i → s.coerce (.int i) = .ok (.int i) := by
  constructor
  · exact fun hk i hb => hk (.int i) (hb.imp Eq.symm Eq.symm) nofun
  · intro hk b hb hne
    obtain ⟨i, rfl⟩ : ∃ i, b = .int i := by
      rcases hb with rfl | rfl
      · exact h.min.resolve_left hne
      · exact h.max.resolve_left hne
    exact hk i (hb.imp Eq.symm Eq.symm)

/-- A field without a precision keeps its bounds. -/
theorem keepsBounds_of_null (h : s.Whole) (hp : s.precision = .null)
    (hb : ∀ i, s.min = .int i ∨ s.max = .int i → i.natAbs < 2 ^ 52) : s.KeepsBounds := by
  rw [h.keepsBounds_iff]
  intro i hi
  rw [h.coerce_eq]
  exact coerceNumber_int h.measured h.bounded (by rw [hp]; rfl) (h.spans_bound hi) (hb i hi)

/-- So does one whose bounds are multiples of the precision. -/
theorem keepsBounds_of_dvd (h : s.Whole) (hp : s.precision = .int p) (hpos : 0 < p)
    (hsmall : p.natAbs < 2 ^ 52)
    (hb : ∀ i, s.min = .int i ∨ s.max = .int i → i.natAbs < 2 ^ 52 ∧ p ∣ i) : s.KeepsBounds := by
  rw [h.keepsBounds_iff]
  intro i hi
  obtain ⟨hlt, hpi⟩ := hb i hi
  rw [h.coerce_int_of_dvd hp hpos hsmall hlt hpi, h.confined_bound hi]

/-- Each bound is what some multiple of the precision becomes. -/
theorem exists_confined (h : s.Whole) (hb : s.min = .int i ∨ s.max = .int i) (hpos : 0 < p)
    (hi : i.natAbs < 2 ^ 51) (hp : p.natAbs < 2 ^ 51) :
    ∃ j, p ∣ j ∧ j.natAbs < 2 ^ 52 ∧ s.confined j = i := by
  obtain hmin | hmax := hb
  · have := Int.emod_nonneg i (by omega : p ≠ 0)
    have := Int.emod_lt_of_pos i hpos
    exact ⟨i - i % p, Int.dvd_self_sub_emod, by omega, h.confined_of_le hmin (by omega)⟩
  · have := Int.emod_nonneg (-i) (by omega : p ≠ 0)
    have := Int.emod_lt_of_pos (-i) hpos
    refine ⟨i + -i % p, ?_, by omega, h.confined_of_ge hmax (by omega)⟩
    have hdvd : p ∣ -(-i - -i % p) := (Int.dvd_neg).mpr Int.dvd_self_sub_emod
    rwa [Int.neg_sub, Int.sub_neg, Int.add_comm] at hdvd

/-- **Which fields keep what they hold**: those that keep their own bounds. -/
theorem keeps_iff (h : s.Whole) (hp : s.precision.Small) (hmin : s.min.Small) (hmax : s.max.Small) :
    (∀ u w, s.coerce u = .ok w → w.Small → s.coerce w = .ok w) ↔ s.KeepsBounds := by
  refine ⟨fun hkeeps => ?_, fun hk u w hu hw => h.coerce_coerce hk hp hu hw⟩
  have hsmall (i : Int) (hb : s.min = .int i ∨ s.max = .int i) : i.natAbs < 2 ^ 51 :=
    hb.elim (hmin i) (hmax i)
  obtain hprecision | ⟨p, hprecision, hpos⟩ := h.precision
  · exact h.keepsBounds_of_null hprecision fun i hb => by
      have := hsmall i hb
      omega
  · rw [hprecision, Value.small_int] at hp
    rw [h.keepsBounds_iff]
    intro i hb
    obtain ⟨j, hpj, hj, hji⟩ := h.exists_confined hb hpos (hsmall i hb) hp
    have hcoerce := h.coerce_int_of_dvd hprecision hpos (by omega) hj hpj
    rw [hji] at hcoerce
    exact hkeeps (.int j) (.int i) hcoerce (Value.small_int.mpr (hsmall i hb))

end Whole

/-- **Fields keep what they hold**, as long as number fields keep their own bounds. -/
theorem coerce_coerce (hn : s.kind = .number → s.Whole ∧ s.KeepsBounds ∧ s.precision.Small)
    (hu : s.coerce u = .ok w) (hw : w.Small) : s.coerce w = .ok w := by
  cases hk : s.kind with
  | number =>
      obtain ⟨hwhole, hkeeps, hp⟩ := hn hk
      exact hwhole.coerce_coerce hkeeps hp hu hw
  | text => exact coerce_coerce_text hk hu
  | colour => exact coerce_coerce_colour hk hu
  | input => rw [coerce, hk]

/-- A field for multiples of five from three on. -/
def fivesFromThree : Socket :=
  { name := .text "N", kind := .number, default := .int 5, min := .int 3, precision := .int 5 }

theorem whole_fivesFromThree : fivesFromThree.Whole where
  number := rfl
  min := .inr ⟨3, rfl⟩
  max := .inl rfl
  precision := .inr ⟨5, rfl, by decide⟩
  ordered := nofun

/-- Zero is written into the field as three, and three as five. -/
theorem not_always_kept : ∃ s : Socket, s.Whole ∧ ∃ u w, s.coerce u = .ok w ∧ w.Small ∧
    s.coerce w ≠ .ok w := by
  refine ⟨fivesFromThree, whole_fivesFromThree, .int 0, .int 3, ?_, Value.small_int.mpr (by decide), ?_⟩
  · exact whole_fivesFromThree.coerce_int_of_dvd rfl (by decide) (by decide) (by decide) ⟨0, rfl⟩
  · have hfive : (fivesFromThree.coerce (.int 3)).toOption = some (.int 5) := by decide +kernel
    intro hthree
    rw [hthree] at hfive
    exact absurd hfive (by decide)

end Socket

/-- Every field of the stock vocabulary keeps what it holds. -/
theorem Vocabulary.keeps_stock : ∀ d ∈ stock.declarations, ∀ s ∈ d.fields, ∀ u w : Value,
    s.coerce u = .ok w → w.Small → s.coerce w = .ok w := by
  refine forall_fields_stock (fun u w => Socket.coerce_coerce fun _ => ?_)
    (fun u w => Socket.coerce_coerce nofun) (fun u w => Socket.coerce_coerce nofun)
    fun u w => Socket.coerce_coerce fun _ => ?_
  · have hwhole : Socket.Whole ⟨.text "SECONDS", .number, none, .int 1, .int 0, .null, .int 1⟩ :=
      ⟨rfl, .inr ⟨0, rfl⟩, .inl rfl, .inr ⟨1, rfl, by decide⟩, nofun⟩
    refine ⟨hwhole, hwhole.keepsBounds_of_dvd rfl (by decide) (by decide) ?_,
      Value.small_int.mpr (by decide)⟩
    rintro i (hi | hi)
    · obtain rfl := Value.int.inj hi
      decide
    · cases hi
  · have hwhole : Socket.Whole ⟨.text "NUM", .number, none, .int 0, .null, .null, .null⟩ :=
      ⟨rfl, .inl rfl, .inl rfl, .inl rfl, nofun⟩
    exact ⟨hwhole, hwhole.keepsBounds_of_null rfl nofun, nofun⟩

end Blockwork
