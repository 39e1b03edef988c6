import Blockwork.Proofs.Numerals
import Blockwork.Proofs.Shortest

/-!
# Printed numbers

A finite number is printed as a text that reads back as the number (`Decimal.read?_text`), however
its digits are laid out: with the point in place, or with the point after the first digit and a power
of ten (`Decimal.Reads`).  So different numbers are printed differently (`Decimal.text_injective`),
and the text of a number in double precision, which has a point or a power of ten, is none of a whole
number (`Decimal.marked_text`).
-/

namespace Blockwork.Decimal

variable {negative : Bool} {cs ds whole part rest : List Char} {c : Char} {p : Int}

/-! ### Rows of digits -/

/-- Whether all of a row are digits. -/
def Digits (ds : List Char) : Prop := ∀ c ∈ ds, c.isDigit = true

theorem digits_digits (n : Nat) : Digits (digits n) := fun _ hc =>
  Nat.isDigit_of_mem_toDigits (by decide) (by decide) hc

theorem Digits.append {ds es : List Char} (h : Digits ds) (h' : Digits es) : Digits (ds ++ es) :=
  fun _ hc => (List.mem_append.mp hc).elim (h _) (h' _)

theorem digits_zeros (k : Nat) : Digits (List.replicate k '0') := fun _ hc => by
  rw [List.eq_of_mem_replicate hc]
  rfl

theorem digits_ne_nil (n : Nat) : digits n ≠ [] := Nat.toDigits_ne_nil

theorem ofDigits_digits (n : Nat) : ofDigits (digits n) = n := by
  rw [ofDigits_eq]
  exact Nat.ofDigitChars_ten_toDigits

theorem ofDigits_append (ds es : List Char) :
    ofDigits (ds ++ es) = ofDigits ds * 10 ^ es.length + ofDigits es := by
  rw [ofDigits_eq, ofDigits_eq, ofDigits_eq, ofDigitsEach, List.foldl_append]
  exact foldl_digits es _

theorem ofDigits_zeros (k : Nat) : ofDigits (List.replicate k '0') = 0 := by
  induction k with
  | zero => rfl
  | succ k ih =>
      rw [List.replicate_succ', ofDigits_append, ih, Nat.zero_mul]
      rfl

/-- The digits at the start end where something else follows. -/
theorem splitDigits_append (hds : Digits ds) (hrest : ∀ c ∈ rest.head?, c.isDigit = false) :
    splitDigits (ds ++ rest) = (ds, rest) := by
  rw [splitDigits, List.takeWhile_append_of_pos hds, List.dropWhile_append_of_pos hds]
  cases rest with
  | nil => simp
  | cons c rest =>
      have hc := hrest c rfl
      rw [List.takeWhile_cons_of_neg (by simp [hc]), List.dropWhile_cons_of_neg (by simp [hc]),
        List.append_nil]

/-! ### Numerals of plain characters -/

/-- What is to be shown of the characters of a row is tried on each of them. -/
theorem forall_mem_of_all {P : Char → Prop} [DecidablePred P] {cs : List Char}
    (h : cs.all (fun c => decide (P c)) = true) : ∀ c ∈ cs, P c := fun c hc =>
  of_decide_eq_true (List.all_eq_true.mp h c hc)

/-- The characters that numbers are printed with. -/
def numeralChars : List Char := "0123456789.e+-".toList

/-- Whether a row is made of characters that numbers are printed with. -/
def Plain (cs : List Char) : Prop := ∀ c ∈ cs, c ∈ numeralChars

theorem mem_numeralChars : ∀ c ∈ numeralChars,
    isSkipped c = false ∧ plainDigit c = c ∧ c ≠ '_' :=
  forall_mem_of_all (by decide)

theorem mem_numeralChars_of_isDigit (h : c.isDigit = true) : c ∈ numeralChars := by
  have hdigit : ∀ d < 10, Char.ofNat (48 + d) ∈ numeralChars := by decide
  have hge : 48 ≤ c.toNat := of_decide_eq_true (Bool.and_eq_true_iff.mp h).1
  have hle : c.toNat ≤ 57 := of_decide_eq_true (Bool.and_eq_true_iff.mp h).2
  have hmem := hdigit (c.toNat - 48) (by omega)
  rwa [Nat.add_sub_cancel' hge, Char.ofNat_toNat] at hmem

theorem isDigit_toLower (h : c.isDigit = true) : c.toLower.isDigit = true := by
  have hdigit : ∀ d ∈ numeralChars, d.isDigit = true → d.toLower.isDigit = true :=
    forall_mem_of_all (by decide)
  exact hdigit c (mem_numeralChars_of_isDigit h) h

theorem Digits.plain (h : Digits ds) : Plain ds := fun _ hc => mem_numeralChars_of_isDigit (h _ hc)

theorem Plain.append {ds : List Char} (h : Plain cs) (h' : Plain ds) : Plain (cs ++ ds) :=
  fun _ hc => (List.mem_append.mp hc).elim (h _) (h' _)

theorem Plain.cons (hc : c ∈ numeralChars) (h : Plain cs) : Plain (c :: cs) :=
  List.forall_mem_cons.mpr ⟨hc, h⟩

/-- Printed numbers are read as they are. -/
theorem plainForm_of_plain (h : Plain cs) : plainForm (String.ofList cs) = some cs := by
  have hkept {ds : List Char} (hds : Plain ds) : ds.dropWhile isSkipped = ds := by
    cases ds with
    | nil => rfl
    | cons c ds =>
        have hc := (mem_numeralChars c (hds c List.mem_cons_self)).1
        exact List.dropWhile_cons_of_neg (by simp [hc])
  have htrim : Text.trimBy isSkipped cs = cs := by
    rw [Text.trimBy, hkept h, hkept fun c hc => h c (List.mem_reverse.mp hc), List.reverse_reverse]
  have hdigits : cs.map plainDigit = cs := by
    rw [List.map_congr_left fun c hc => (mem_numeralChars c (h c hc)).2.1, List.map_id']
  have hfit (previous : Char) (hp : previous ≠ '_') : underscoresFit previous cs = true := by
    clear htrim hdigits
    induction cs generalizing previous with
    | nil => simp [underscoresFit, hp]
    | cons c cs ih =>
        have hc := (mem_numeralChars c (h c List.mem_cons_self)).2.2
        rw [underscoresFit, if_neg hc, ih (fun d hd => h d (List.mem_cons_of_mem c hd)) c hc]
        simp [hp]
  have hfilter : cs.filter (· != '_') = cs := List.filter_eq_self.mpr fun c hc => by
    simp [(mem_numeralChars c (h c hc)).2.2]
  rw [plainForm, String.toList_ofList, htrim, hdigits, dropUnderscores, if_pos (hfit _ (by decide)),
    hfilter]

/-! ### Reading what is laid out -/

/-- Whether a row is read as a number of units of a power of ten: digits, a point and more digits,
and a power of ten. -/
structure Reads (cs : List Char) (n : Nat) (p : Int) : Prop where
  plain : Plain cs
  marked : '.' ∈ cs ∨ 'e' ∈ cs
  exists_parts : ∃ whole part rest power, splitPoint cs = (whole, part, rest) ∧
    readPower? rest = some power ∧ whole ≠ [] ∧ whole <+: cs ∧ Digits whole ∧
      ofDigits (whole ++ part) = n ∧ power - part.length = p

/-- A row that begins with a digit has no sign, and is no word. -/
theorem splitSign_of_digit (hc : c.isDigit = true) : splitSign (c :: cs) = (false, c :: cs) := by
  unfold splitSign
  split
  · rename_i h
    obtain ⟨rfl, -⟩ := List.cons.inj h
    cases hc
  · rename_i h
    obtain ⟨rfl, -⟩ := List.cons.inj h
    cases hc
  · rfl

/-- What is read as a number of units of a power of ten is read as their value. -/
theorem Reads.read? {n : Nat} (h : Reads cs n p) (negative : Bool) :
    read? (String.ofList (if negative then '-' :: cs else cs)) = some (value negative n p) := by
  obtain ⟨hplain, -, whole, part, rest, power, hsplit, hpower, hne, ⟨tail, rfl⟩, hwhole, rfl, rfl⟩ := h
  obtain ⟨c, whole, rfl⟩ := List.exists_cons_of_ne_nil hne
  have hc := hwhole c List.mem_cons_self
  have hform : plainForm (String.ofList (if negative then '-' :: (c :: whole ++ tail)
      else c :: whole ++ tail)) = some (if negative then '-' :: (c :: whole ++ tail)
      else c :: whole ++ tail) := by
    refine plainForm_of_plain ?_
    split
    · exact hplain.cons (by decide)
    · exact hplain
  have hsign : splitSign (if negative then '-' :: (c :: whole ++ tail) else c :: whole ++ tail) =
      (negative, c :: whole ++ tail) := by
    cases negative with
    | true => rfl
    | false => exact splitSign_of_digit hc
  have hword {s : String} (hs : s.toList.head? = some 'i' ∨ s.toList.head? = some 'n') :
      String.ofList ((c :: whole ++ tail).map Char.toLower) ≠ s := by
    rintro rfl
    have hlower : c.toLower.isDigit = true := isDigit_toLower hc
    rw [String.toList_ofList] at hs
    rcases hs with hs | hs
    · rw [Option.some.inj hs] at hlower
      cases hlower
    · rw [Option.some.inj hs] at hlower
      cases hlower
  rw [Decimal.read?, hform]
  simp only [Option.bind_eq_bind, Option.bind_some, hsign]
  rw [if_neg (not_or.mpr ⟨hword (.inl rfl), hword (.inl rfl)⟩), if_neg (hword (.inr rfl)), hsplit]
  simp [hpower]

/-! ### Laying out -/

section

variable {power : Int} (hw : Digits whole) (hne : whole ≠ []) (hplain : Plain rest)
  (hpower : readPower? rest = some power) (hrest : ∀ c ∈ rest.head?, c = 'e')

include hw hne hplain hpower hrest

/-- Digits with a point among them. -/
theorem reads_point (hp : Digits part) :
    Reads (whole ++ '.' :: (part ++ rest)) (ofDigits (whole ++ part)) (power - part.length) where
  plain := hw.plain.append ((hp.plain.append hplain).cons (by decide))
  marked := .inl (List.mem_append_right _ List.mem_cons_self)
  exists_parts := by
    refine ⟨whole, part, rest, power, ?_, hpower, hne, List.prefix_append _ _, hw, rfl, rfl⟩
    have hmark : ∀ c ∈ rest.head?, c.isDigit = false := fun c hc => by rw [hrest c hc]; rfl
    have hpoint : ∀ c ∈ ('.' :: (part ++ rest)).head?, c.isDigit = false := fun c hc => by
      rw [← Option.some.inj hc]
      rfl
    simp only [splitPoint, splitDigits_append hw hpoint, splitDigits_append hp hmark]

/-- Digits without a point, before a power of ten. -/
theorem reads_whole (he : 'e' ∈ rest) : Reads (whole ++ rest) (ofDigits whole) power where
  plain := hw.plain.append hplain
  marked := .inr (List.mem_append_right _ he)
  exists_parts := by
    refine ⟨whole, [], rest, power, ?_, hpower, hne, List.prefix_append _ _, hw, ?_, ?_⟩
    · have hmark : ∀ c ∈ rest.head?, c.isDigit = false := fun c hc => by rw [hrest c hc]; rfl
      simp only [splitPoint, splitDigits_append hw hmark]
      split
      · rename_i rest
        cases hrest '.' rfl
      · rfl
    · rw [List.append_nil]
    · exact Int.sub_zero power

end

/-- A power of ten, as it is printed. -/
theorem readPower?_printed (power : Int) (width : Nat) :
    readPower? ('e' :: (if power < 0 then '-' else '+') ::
      (List.replicate width '0' ++ digits power.natAbs)) = some power := by
  have hdigits : Digits (List.replicate width '0' ++ digits power.natAbs) :=
    (digits_zeros width).append (digits_digits _)
  have hsign : splitSign ((if power < 0 then '-' else '+') ::
      (List.replicate width '0' ++ digits power.natAbs)) =
        (decide (power < 0), List.replicate width '0' ++ digits power.natAbs) := by
    split
    · rename_i h
      rw [decide_eq_true h]
      rfl
    · rename_i h
      rw [decide_eq_false h]
      rfl
  have hany : (List.replicate width '0' ++ digits power.natAbs).any (!·.isDigit) = false := by
    rw [List.any_eq_false]
    intro c hc
    simp [hdigits c hc]
  have hne : (List.replicate width '0' ++ digits power.natAbs).isEmpty = false := by
    simp [digits_ne_nil]
  rw [readPower?, if_pos (.inl rfl), hsign]
  simp only [hany, hne, Bool.or_self, Bool.false_eq_true, if_false]
  rw [ofDigits_append, ofDigits_zeros, Nat.zero_mul, Nat.zero_add, ofDigits_digits]
  congr 1
  by_cases h : power < 0
  · simp only [h, decide_true, if_true]
    omega
  · simp only [h, decide_false, Bool.false_eq_true, if_false]
    omega

theorem readPower?_nil : readPower? [] = some 0 := rfl

theorem plain_nil : Plain [] := fun _ hc => nomatch hc

theorem head?_nil : ∀ c ∈ ([] : List Char).head?, c = 'e' := fun _ hc => nomatch hc

/-- Digits with the point in place are read as so many units, or as ten times as many for each zero
that is put behind them. -/
theorem exists_reads_placed (hds : Digits ds) (hne : ds ≠ []) {point : Int} (hpoint : point ≤ 16) :
    ∃ j : Nat, j ≤ 17 ∧ (j = 0 ∨ point - ds.length - j = -1) ∧
      Reads (placed ds point) (ofDigits ds * 10 ^ j) (point - ds.length - j) := by
  have hzero : Digits ['0'] := digits_zeros 1
  unfold placed
  split
  · have hread := reads_point hzero (List.cons_ne_nil _ _) plain_nil readPower?_nil head?_nil
      ((digits_zeros (-point).toNat).append hds)
    have hvalue : ofDigits (['0'] ++ (List.replicate (-point).toNat '0' ++ ds)) = ofDigits ds := by
      rw [ofDigits_append, ofDigits_append, ofDigits_zeros, Nat.zero_mul, Nat.zero_add]
      exact (congrArg (· + _) (Nat.zero_mul _)).trans (Nat.zero_add _)
    have hpower : (0 : Int) - (List.replicate (-point).toNat '0' ++ ds).length =
        point - ds.length - (0 : Nat) := by
      rw [List.length_append, List.length_replicate]
      omega
    rw [List.append_nil, hvalue, hpower] at hread
    exact ⟨0, Nat.zero_le _, .inl rfl, by simpa using hread⟩
  · split
    · rename_i hlong
      have hread := reads_point (hds.append (digits_zeros (point.toNat - ds.length)))
        (List.append_ne_nil_of_left_ne_nil hne _) plain_nil readPower?_nil head?_nil hzero
      have hvalue : ofDigits (ds ++ List.replicate (point.toNat - ds.length) '0' ++ ['0']) =
          ofDigits ds * 10 ^ (point.toNat - ds.length + 1) := by
        rw [List.append_assoc, ← List.replicate_one, List.replicate_append_replicate,
          ofDigits_append, ofDigits_zeros, List.length_replicate, Nat.add_zero]
      rw [hvalue] at hread
      have hpower : (0 : Int) - ['0'].length =
          point - ds.length - (point.toNat - ds.length + 1 : Nat) := by
        rw [List.length_singleton]
        omega
      rw [hpower] at hread
      refine ⟨_, ?_, .inr ?_, hread⟩
      · omega
      · omega
    · have htake : Digits (ds.take point.toNat) := fun c hc => hds c (List.mem_of_mem_take hc)
      have hdrop : Digits (ds.drop point.toNat) := fun c hc => hds c (List.mem_of_mem_drop hc)
      have hhead : ds.take point.toNat ≠ [] := by
        rw [Ne, List.take_eq_nil_iff]
        exact not_or.mpr ⟨by omega, hne⟩
      have hread := reads_point htake hhead plain_nil readPower?_nil head?_nil hdrop
      have hpower : (0 : Int) - (ds.drop point.toNat).length = point - ds.length - (0 : Nat) := by
        rw [List.length_drop]
        omega
      rw [List.append_nil, List.take_append_drop, hpower] at hread
      exact ⟨0, Nat.zero_le _, .inl rfl, by simpa using hread⟩

/-- Digits with the point after the first and a power of ten are read as so many units. -/
theorem reads_scientific (hds : Digits ds) (hne : ds ≠ []) (power : Int) :
    Reads (scientific .plain ds power) (ofDigits ds) (power + 1 - ds.length) := by
  have hpower := readPower?_printed power (Layout.plain.exponentWidth - (digits power.natAbs).length)
  have hplain : Plain ('e' :: (if power < 0 then '-' else '+') ::
      (List.replicate (Layout.plain.exponentWidth - (digits power.natAbs).length) '0' ++
        digits power.natAbs)) := by
    refine .cons (by decide) (.cons ?_ ((digits_zeros _).append (digits_digits _)).plain)
    split
    · decide
    · decide
  have hmark : ∀ c ∈ ('e' :: (if power < 0 then '-' else '+') ::
      (List.replicate (Layout.plain.exponentWidth - (digits power.natAbs).length) '0' ++
        digits power.natAbs)).head?, c = 'e' := fun c hc => (Option.some.inj hc).symm
  match ds, hne with
  | [d], _ =>
      have hread := reads_whole hds (List.cons_ne_nil _ _) hplain hpower hmark
        List.mem_cons_self
      have hlength : power = power + 1 - [d].length := by
        simp only [List.length_singleton]
        omega
      rw [← hlength]
      exact hread
  | d :: d' :: ds, _ =>
      obtain ⟨hd, hds⟩ := List.forall_mem_cons.mp hds
      have hone : Digits [d] := List.forall_mem_singleton.mpr hd
      have hread := reads_point hone (List.cons_ne_nil _ _) hplain hpower hmark hds
      have hlength : power - (d' :: ds).length = power + 1 - (d :: d' :: ds).length := by
        simp only [List.length_cons]
        omega
      rw [hlength] at hread
      exact hread

/-- **A numeral is laid out so that it is read as its value.** -/
theorem exists_reads_layOut {n : Numeral} (hn : n.coefficient ≠ 0) : ∃ k p,
    Reads (layOut .plain n) k p ∧ ∀ negative,
      value negative k p = value negative n.coefficient n.scale := by
  have hds := digits_digits n.coefficient
  have hne := digits_ne_nil n.coefficient
  have hvalue := ofDigits_digits n.coefficient
  unfold layOut
  extract_lets ds point
  change Digits ds at hds
  change ds ≠ [] at hne
  change ofDigits ds = n.coefficient at hvalue
  split
  · rename_i hplace
    obtain ⟨j, hj, hlast, hread⟩ := exists_reads_placed hds hne (Int.le_of_sub_one_lt hplace.2)
    rw [hvalue, show point - ds.length = n.scale by omega] at hread
    refine ⟨_, _, hread, fun negative => ?_⟩
    rcases hlast with rfl | hlast
    · simp
    · exact value_shift j hn (by omega) (by omega) (by omega)
  · have hread := reads_scientific hds hne (point - 1)
    rw [hvalue, show point - 1 + 1 - ds.length = n.scale by omega] at hread
    exact ⟨_, _, hread, fun negative => rfl⟩

/-- A finite number is printed as its sign and what is read as its amount. -/
theorem exists_reads_text {x : Binary64} (hx : x.isFinite = true) : ∃ negative cs n p,
    text .plain x = String.ofList (if negative then '-' :: cs else cs) ∧ Reads cs n p ∧
      value negative n p = x := by
  cases x with
  | nan n => cases hx
  | infinite s => cases hx
  | finite s m e h =>
      unfold text
      by_cases hm : m = 0
      · subst hm
        obtain rfl : e = -1074 := h.full.resolve_left (by decide)
        have hzero : Digits ['0'] := digits_zeros 1
        exact ⟨s, _, _, _, rfl, reads_point hzero (List.cons_ne_nil _ _) plain_nil readPower?_nil
          head?_nil hzero, rfl⟩
      · have hvalue := value_shortest h hm
        have hn : (shortest m e h).coefficient ≠ 0 := by
          intro hzero
          rw [hzero] at hvalue
          injection hvalue with _ hm'
          exact hm hm'.symm
        obtain ⟨k, p, hread, hsame⟩ := exists_reads_layOut hn
        refine ⟨s, _, k, p, by simp only [if_neg hm], hread, ?_⟩
        rw [hsame]
        cases s with
        | false => exact hvalue
        | true =>
            rw [← neg_value, hvalue]
            rfl

variable {x y : Binary64}

/-- **What a finite number is printed as reads back as the number.** -/
theorem read?_text (hx : x.isFinite = true) : read? (text .plain x) = some x := by
  obtain ⟨negative, cs, n, p, htext, hread, rfl⟩ := exists_reads_text hx
  rw [htext]
  exact hread.read? negative

/-- Different numbers are printed differently. -/
theorem text_injective (hx : x.isFinite = true) (hy : y.isFinite = true)
    (h : text .plain x = text .plain y) : x = y :=
  Option.some.inj ((read?_text hx).symm.trans ((congrArg read? h).trans (read?_text hy)))

theorem plain_text (hx : x.isFinite = true) : Plain (text .plain x).toList := by
  obtain ⟨negative, cs, n, p, htext, hread, -⟩ := exists_reads_text hx
  rw [htext, String.toList_ofList]
  split
  · exact hread.plain.cons (by decide)
  · exact hread.plain

/-- A number in double precision is printed with a point or with a power of ten. -/
theorem marked_text (hx : x.isFinite = true) :
    '.' ∈ (text .plain x).toList ∨ 'e' ∈ (text .plain x).toList := by
  obtain ⟨negative, cs, n, p, htext, hread, -⟩ := exists_reads_text hx
  rw [htext, String.toList_ofList]
  split
  · exact hread.marked.imp (List.mem_cons_of_mem _) (List.mem_cons_of_mem _)
  · exact hread.marked

end Blockwork.Decimal
