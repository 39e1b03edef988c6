import Blockwork.Proofs.Chronicle
import Blockwork.Proofs.Rearranging
import Blockwork.Proofs.Typing

/-!
# Domains of fields

What is written into a field is brought into the domain of the field (`Socket.admits_of_coerce`): a
number between the bounds, a colour in written form, a text.  The default of a type is not; only a
colour is brought into its written form where the type is declared (`Socket.hex_of_ofValue`).  So a
field holds what its domain admits, or its default as it was declared
(`Chronicle.holds_default_or_admits`), and where the defaults are in their domains, so is whatever a
field holds (`Chronicle.admits`).
-/

namespace Blockwork

/-! ### The order of numbers -/

namespace Number

/-- Whether something is no number. -/
def isNaN : Number → Bool
  | .int _ => false
  | .float x => x.isNaN

/-- Whether something is a number, and not infinite. -/
def isFinite : Number → Bool
  | .int _ => true
  | .float x => x.isFinite

/-- Where a number lies between the two infinities. -/
def level : Number → WithBot (WithTop ℚ)
  | .int i => ((i : ℚ) : WithTop ℚ)
  | .float x => x.level

theorem compare?_intFloat (i : Int) {x : Binary64} (hx : x.isNaN = false) :
    compare?.intFloat i x = some (compare (Number.int i).level x.level) := by
  cases x with
  | nan p => cases hx
  | infinite s =>
      cases s with
      | true => exact congrArg some (compare_gt_iff_gt.mpr (WithBot.bot_lt_coe _)).symm
      | false =>
          refine congrArg some (compare_lt_iff_lt.mpr ?_).symm
          exact WithBot.coe_lt_coe.mpr (WithTop.coe_lt_top _)
  | finite s m e _ =>
      have hd : (0 : ℚ) < Binary64.denominator e := by exact_mod_cast Binary64.denominator_pos e
      refine congrArg some (Binary64.compare_congr ?_ ?_)
      · refine Iff.trans ?_ ((WithTop.coe_lt_coe.symm).trans WithBot.coe_lt_coe.symm)
        rw [lt_div_iff₀ hd]
        exact_mod_cast Iff.rfl
      · refine Iff.trans ?_ ((WithTop.coe_lt_coe.symm).trans WithBot.coe_lt_coe.symm)
        rw [div_lt_iff₀ hd]
        exact_mod_cast Iff.rfl

variable {a b : Number}

/-- The order of numbers is that of their levels. -/
theorem compare?_eq (ha : a.isNaN = false) (hb : b.isNaN = false) :
    a.compare? b = some (compare a.level b.level) := by
  cases a with
  | int i =>
      cases b with
      | int j =>
          refine congrArg some (Binary64.compare_congr ?_ ?_)
          · refine Iff.trans ?_ ((WithTop.coe_lt_coe.symm).trans WithBot.coe_lt_coe.symm)
            exact_mod_cast Iff.rfl
          · refine Iff.trans ?_ ((WithTop.coe_lt_coe.symm).trans WithBot.coe_lt_coe.symm)
            exact_mod_cast Iff.rfl
      | float y => exact compare?_intFloat i hb
  | float x =>
      cases b with
      | int j =>
          change (compare?.intFloat j x).map Ordering.swap = _
          rw [compare?_intFloat j ha, Option.map_some, ← Std.OrientedOrd.eq_swap]
          rfl
      | float y => exact Binary64.compare?_eq ha hb

theorem lt_iff_level (ha : a.isNaN = false) (hb : b.isNaN = false) :
    a.lt b = true ↔ a.level < b.level := by
  rw [lt, compare?_eq ha hb, beq_iff_eq, Option.some.injEq, compare_lt_iff_lt]

theorem same_iff_level (ha : a.isNaN = false) (hb : b.isNaN = false) :
    a.same b = true ↔ a.level = b.level := by
  rw [same, compare?_eq ha hb, beq_iff_eq, Option.some.injEq, compare_eq_iff_eq]

theorem le_iff_level (ha : a.isNaN = false) (hb : b.isNaN = false) :
    a.le b = true ↔ a.level ≤ b.level := by
  rw [le, Bool.or_eq_true, lt_iff_level ha hb, show (a.compare? b == some .eq) = a.same b from rfl,
    same_iff_level ha hb, le_iff_lt_or_eq]

theorem lt_int (i j : Int) : (int i).lt (.int j) = decide (i < j) := by
  rw [Bool.eq_iff_iff, decide_eq_true_iff, lt, compare?, beq_iff_eq,
    Option.some.injEq, compare_lt_iff_lt]

theorem le_int (i j : Int) : (int i).le (.int j) = decide (i ≤ j) := by
  rw [Bool.eq_iff_iff, decide_eq_true_iff, le, Bool.or_eq_true, lt_int, decide_eq_true_iff,
    compare?, beq_iff_eq, Option.some.injEq, compare_eq_iff_eq, le_iff_lt_or_eq]

/-- What is no number is less than nothing, and nothing is less. -/
theorem lt_eq_false_of_isNaN (h : a.isNaN = true ∨ b.isNaN = true) : a.lt b = false := by
  have hcompare : a.compare? b = none := by
    cases a with
    | int i =>
        cases b with
        | int j => simp [isNaN] at h
        | float y => cases y <;> simp_all [isNaN, Binary64.isNaN, compare?, compare?.intFloat]
    | float x =>
        cases b with
        | int j => cases x <;> simp_all [isNaN, Binary64.isNaN, compare?, compare?.intFloat]
        | float y =>
            cases x <;> cases y <;> simp_all [isNaN, Binary64.isNaN, compare?, Binary64.compare?]
  rw [lt, hcompare]
  rfl

theorem isNaN_of_isFinite (h : a.isFinite = true) : a.isNaN = false := by
  cases a with
  | int i => rfl
  | float x =>
      cases x with
      | nan p => cases h
      | infinite s => rfl
      | finite s m e hfits => rfl

/-- Only a number can be the greater or the lesser one of something and a number, in this order. -/
theorem isNaN_max (hb : b.isNaN = false) : (a.max b).isNaN = a.isNaN := by
  unfold max
  cases ha : a.isNaN with
  | true => rw [lt_eq_false_of_isNaN (.inl ha), if_neg Bool.false_ne_true, ha]
  | false =>
      split
      · exact hb
      · exact ha

theorem isNaN_min (hb : b.isNaN = false) : (a.min b).isNaN = a.isNaN := by
  unfold min
  cases ha : a.isNaN with
  | true => rw [lt_eq_false_of_isNaN (.inr ha), if_neg Bool.false_ne_true, ha]
  | false =>
      split
      · exact hb
      · exact ha

theorem level_max (ha : a.isNaN = false) (hb : b.isNaN = false) :
    (a.max b).level = Max.max a.level b.level := by
  unfold max
  split
  · rename_i h
    rw [lt_iff_level ha hb] at h
    exact (max_eq_right h.le).symm
  · rename_i h
    rw [lt_iff_level ha hb, not_lt] at h
    exact (max_eq_left h).symm

theorem level_min (ha : a.isNaN = false) (hb : b.isNaN = false) :
    (a.min b).level = Min.min a.level b.level := by
  unfold min
  split
  · rename_i h
    rw [lt_iff_level hb ha] at h
    exact (min_eq_right h.le).symm
  · rename_i h
    rw [lt_iff_level hb ha, not_lt] at h
    exact (min_eq_left h).symm

/-- Only finite numbers have a whole part. -/
theorem isFinite_of_truncate {i : Int} (h : a.truncate = .ok i) : a.isFinite = true := by
  cases a with
  | int j => rfl
  | float x =>
      cases x with
      | nan p => cases h
      | infinite s => cases h
      | finite s m e hfits => rfl

end Number

/-! ### What fields admit -/

theorem Value.number?_of_toNumber {v : Value} {n : Number} (h : v.toNumber = .ok n) :
    v.number? = some n := by
  unfold toNumber at h
  split at h
  · cases h
    assumption
  · cases h

namespace Socket

variable {s : Socket} {u v : Value} {n : Number}

/-- Whether bounds that are declared for a number can be kept: they are not no number, and the lower
one is not above the upper one. -/
structure Bounded (s : Socket) : Prop where
  lower : ∀ lo, s.min.number? = some lo → lo.isNaN = false
  upper : ∀ hi, s.max.number? = some hi → hi.isNaN = false
  ordered : ∀ lo hi, s.min.number? = some lo → s.max.number? = some hi → lo.le hi = true

/-- Whether a number is finite and between the bounds that are declared. -/
structure Spans (s : Socket) (n : Number) : Prop where
  finite : n.isFinite = true
  lower : ∀ lo, s.min.number? = some lo → lo.le n = true
  upper : ∀ hi, s.max.number? = some hi → n.le hi = true

/-- Whether a value is in the domain of a field. -/
def Admits (s : Socket) (v : Value) : Prop :=
  (s.kind = .number → ∃ n, v = n.toValue ∧ s.Spans n) ∧
  (s.kind = .colour → ∃ t, v = .text t ∧ Rgb.IsHex t) ∧
  (s.kind = .text → ∃ t, v = .text t)

/-- A bound that a number is raised to is none or a number. -/
theorem exists_of_raiseTo {m : Number} (h : raiseTo u n = .ok m) :
    u.number? = none ∧ m = n ∨ ∃ lo, u.number? = some lo ∧ m = n.max lo := by
  unfold raiseTo at h
  split at h
  · rename_i hu
    exact .inl ⟨by rw [hu]; rfl, (Except.ok.inj h).symm⟩
  · obtain ⟨lo, hlo, h⟩ := exists_of_bind_ok h
    exact .inr ⟨lo, Value.number?_of_toNumber hlo, (Except.ok.inj h).symm⟩

theorem exists_of_lowerTo {m : Number} (h : lowerTo u n = .ok m) :
    u.number? = none ∧ m = n ∨ ∃ hi, u.number? = some hi ∧ m = n.min hi := by
  unfold lowerTo at h
  split at h
  · rename_i hu
    exact .inl ⟨by rw [hu]; rfl, (Except.ok.inj h).symm⟩
  · obtain ⟨hi, hhi, h⟩ := exists_of_bind_ok h
    exact .inr ⟨hi, Value.number?_of_toNumber hhi, (Except.ok.inj h).symm⟩

/-- A number that is raised is not below the lower bound. -/
theorem level_le_of_raiseTo {m lo : Number} (hs : s.Bounded) (h : raiseTo s.min n = .ok m)
    (hm : m.isNaN = false) (hlo : s.min.number? = some lo) : lo.level ≤ m.level := by
  obtain ⟨hnone, -⟩ | ⟨lo', hlo', rfl⟩ := exists_of_raiseTo h
  · rw [hnone] at hlo
    cases hlo
  · obtain rfl := Option.some.inj (hlo.symm.trans hlo')
    have hfair := hs.lower lo hlo
    rw [Number.isNaN_max hfair] at hm
    rw [Number.level_max hm hfair]
    exact le_max_right ..

/-- **A number that is brought between the bounds** is there, if it is finite. -/
theorem spans_of_lowerTo {m k : Number} (hs : s.Bounded) (hraise : raiseTo s.min n = .ok m)
    (hlower : lowerTo s.max m = .ok k) (hk : k.isFinite = true) : s.Spans k := by
  have hkn := Number.isNaN_of_isFinite hk
  obtain ⟨hnone, rfl⟩ | ⟨hi, hhi, rfl⟩ := exists_of_lowerTo hlower
  · refine ⟨hk, fun lo hlo => ?_, fun hi hhi => ?_⟩
    · rw [Number.le_iff_level (hs.lower lo hlo) hkn]
      exact level_le_of_raiseTo hs hraise hkn hlo
    · rw [hnone] at hhi
      cases hhi
  · have hfair := hs.upper hi hhi
    have hmn : m.isNaN = false := by rwa [Number.isNaN_min hfair] at hkn
    refine ⟨hk, fun lo hlo => ?_, fun hi' hhi' => ?_⟩
    · -- the upper bound is not below the lower one
      have hordered := hs.ordered lo hi hlo hhi
      rw [Number.le_iff_level (hs.lower lo hlo) hfair] at hordered
      rw [Number.le_iff_level (hs.lower lo hlo) hkn, Number.level_min hmn hfair]
      exact le_min (level_le_of_raiseTo hs hraise hmn hlo) hordered
    · obtain rfl := Option.some.inj (hhi.symm.trans hhi')
      rw [Number.le_iff_level hkn hfair, Number.level_min hmn hfair]
      exact min_le_right ..

/-- A finite number of the same value is between the bounds, too. -/
theorem Spans.of_level {m : Number} (h : s.Spans n) (hs : s.Bounded) (hm : m.isFinite = true)
    (hlevel : m.level = n.level) : s.Spans m := by
  have hmn := Number.isNaN_of_isFinite hm
  have hnn := Number.isNaN_of_isFinite h.finite
  refine ⟨hm, fun lo hlo => ?_, fun hi hhi => ?_⟩
  · have hle := h.lower lo hlo
    rw [Number.le_iff_level (hs.lower lo hlo) hnn, ← hlevel] at hle
    exact (Number.le_iff_level (hs.lower lo hlo) hmn).mpr hle
  · have hle := h.upper hi hhi
    rw [Number.le_iff_level hnn (hs.upper hi hhi), ← hlevel] at hle
    exact (Number.le_iff_level hmn (hs.upper hi hhi)).mpr hle

/-- **What is written into a number field is between the bounds**, and a whole number where it is
equal to one. -/
theorem spans_of_coerceNumber (hs : s.Bounded) (h : s.coerceNumber u = .ok v) :
    ∃ n, v = n.toValue ∧ s.Spans n ∧ settle n = .ok v := by
  obtain ⟨_, _, _, k, -, -, hraise, hlower, hsettle⟩ := exists_of_coerceNumber h
  obtain ⟨i, hi, h⟩ := exists_of_bind_ok hsettle
  have hk := Number.isFinite_of_truncate hi
  have hspans := spans_of_lowerTo hs hraise hlower hk
  have hv := Except.ok.inj h
  split at hv
  · rename_i hsame
    subst hv
    rw [Number.same_iff_level (Number.isNaN_of_isFinite hk) rfl] at hsame
    exact ⟨.int i, rfl, hspans.of_level hs rfl hsame.symm, settle_int i⟩
  · exact ⟨k, hv.symm, hspans, hsettle⟩

/-- **What is brought into the domain of a field is there.** -/
theorem admits_of_coerce (hs : s.kind = .number → s.Bounded) (h : s.coerce u = .ok v) :
    s.Admits v := by
  refine ⟨fun hk => ?_, fun hk => ?_, fun hk => ?_⟩
  · rw [coerce, hk] at h
    obtain ⟨n, hn, hspans, -⟩ := spans_of_coerceNumber (hs hk) h
    exact ⟨n, hn, hspans⟩
  · obtain ⟨c, rfl⟩ := exists_of_coerce_colour hk h
    exact ⟨c.hex, rfl, c.isHex_hex⟩
  · rw [coerce, hk] at h
    exact ⟨_, (Except.ok.inj h).symm⟩

/-- The default of a colour field is in written form, whatever colour is declared. -/
theorem hex_of_ofValue (h : ofValue u = .ok s) (hk : s.kind = .colour) :
    ∃ t, s.default = .text t ∧ Rgb.IsHex t := by
  cases u with
  | dict es =>
      unfold ofValue at h
      dsimp only at h
      split at h
      · rename_i kind _
        obtain ⟨default, hdefault, h⟩ := exists_of_bind_ok h
        split at h
        · obtain ⟨check, -, h⟩ := exists_of_bind_ok h
          obtain rfl := Except.ok.inj h
          obtain rfl : kind = .colour := hk
          obtain ⟨c, -, hc⟩ := exists_of_bind_ok hdefault
          obtain rfl := Except.ok.inj hc
          exact ⟨c.hex, rfl, c.isHex_hex⟩
        · cases h
      · cases h
  | _ => cases h

end Socket

/-! ### What blocks hold -/

namespace Declaration

variable {d : Declaration} {s : Socket} {fields : List (Key × Value)}

/-- Whether each field holds its default, or a value that was brought into its domain. -/
def Kept (d : Declaration) (fields : List (Key × Value)) : Prop :=
  ∀ s ∈ d.fields, ∀ name, s.name.key? = some name → ∃ u, Entries.get? fields name = some u ∧
    (u = s.default ∨ ∃ u', s.coerce u' = .ok u)

/-- A name tells the field that has it. -/
theorem Articulate.eq_of_key? (h : d.Articulate) {s s' : Socket} {j k : Key} (hs : s ∈ d.fields)
    (hs' : s' ∈ d.fields) (hj : s.name.key? = some j) (hk : s'.name.key? = some k)
    (hjk : (j == k) = true) : s = s' := by
  refine List.inj_on_of_nodup_map h (List.mem_of_mem_filter hs) (List.mem_of_mem_filter hs') ?_
  rw [hj, hk, Option.map_some, Option.map_some, (Key.beq_iff_name ..).mp hjk]

theorem kept_defaults (h : d.Articulate) : d.Kept d.defaults := by
  intro s hs name hname
  have hmem := mem_defaults hs hname
  cases hget : Entries.get? d.defaults name with
  | none =>
      rw [Entries.get?, Option.map_eq_none_iff, List.find?_eq_none] at hget
      exact absurd BEq.rfl (hget _ hmem)
  | some u =>
      obtain ⟨j, hju, hjn⟩ := Entries.exists_mem_of_get? hget
      obtain ⟨s', hs', hmap⟩ := List.mem_filterMap.mp hju
      obtain ⟨_, hj, he⟩ := Option.map_eq_some_iff.mp hmap
      obtain ⟨rfl, rfl⟩ := Prod.mk.inj he
      obtain rfl := h.eq_of_key? hs' hs hj hname hjn
      exact ⟨_, rfl, .inl rfl⟩

theorem Kept.put (h : d.Kept fields) (hd : d.Articulate) {asked value new : Value} {name : Key}
    (hs : d.field? asked = some s) (hname : asked.key? = some name)
    (hnew : s.coerce value = .ok new) : d.Kept (Entries.put fields name new) := by
  intro s' hs' k hk
  rw [Entries.get?_put]
  split
  · rename_i hnk
    obtain ⟨hmem, hsame⟩ := mem_fields_of_field? hs
    obtain ⟨j, hj, hjn⟩ := Value.exists_key?_of_same hsame hname
    obtain rfl := hd.eq_of_key? hmem hs' hj hk (BEq.trans hjn hnk)
    exact ⟨new, rfl, .inr ⟨value, hnew⟩⟩
  · exact h s' hs' k hk

end Declaration

/-- **Each field of a block holds its default, or a value that was brought into its domain.** -/
theorem Block.standing_kept {v : Vocabulary} (hv : v.Articulate) : Standing v fun b =>
    ∃ d, (do v.get (← b.type.toKey)) = .ok d ∧ d.Kept b.fields where
  changed {b f} hf hb := by
    obtain ⟨d, hd, hkept⟩ := hb
    obtain ⟨-, htype, -, -, hfields, -⟩ := hf b
    exact ⟨d, htype ▸ hd, hfields ▸ hkept⟩
  written hd hs hname hnew hb := by
    obtain ⟨d', hd', hkept⟩ := hb
    obtain rfl := Except.ok.inj (hd.symm.trans hd')
    exact ⟨_, hd, hkept.put (hv _ (Vocabulary.mem_of_lookup hd)) hs hname hnew⟩
  moved _ hb := hb
  raised _ hc := hc
  created {b d given position} hd hf _ _ _ := by
    have harticulate := hv d (Vocabulary.mem_of_lookup hd)
    exact ⟨d, hd, Declaration.filled_induct hf (Declaration.kept_defaults harticulate)
      fun hs hname hnew hkept => hkept.put harticulate hs hname hnew⟩

/-! ### Vocabularies -/

/-- A colour field of a type that is declared has a default in written form. -/
theorem Declaration.admits_colour_of_ofValue {x : Value} {d : Declaration}
    (h : Declaration.ofValue x = .ok d) {s : Socket} (hs : s ∈ d.sockets) (hk : s.kind = .colour) :
    s.Admits s.default := by
  obtain ⟨u, hu⟩ := (Declaration.arguments_of_ofValue h).1 s hs
  refine ⟨fun hn => ?_, fun _ => Socket.hex_of_ofValue hu hk, fun ht => ?_⟩
  · rw [hk] at hn
    cases hn
  · rw [hk] at ht
    cases ht

namespace Vocabulary

/-- What is seen to where types are declared: names tell the arguments of a type apart, and the
default of a colour is in written form. -/
structure Declared (v : Vocabulary) : Prop where
  articulate : v.Articulate
  colour : ∀ d ∈ v.declarations, ∀ s ∈ d.fields, s.kind = .colour → s.Admits s.default

/-- Whether the bounds of all number fields can be kept. -/
def Bounded (v : Vocabulary) : Prop :=
  ∀ d ∈ v.declarations, ∀ s ∈ d.fields, s.kind = .number → s.Bounded

/-- Whether all defaults are in the domains of their fields. -/
def Fitting (v : Vocabulary) : Prop :=
  ∀ d ∈ v.declarations, ∀ s ∈ d.fields, s.Admits s.default

variable {v : Vocabulary}

theorem declared_of_ofValue (h : ∀ d ∈ v.declarations, ∃ x, Declaration.ofValue x = .ok d) :
    v.Declared where
  articulate d hd := by
    obtain ⟨x, hx⟩ := h d hd
    exact Declaration.articulate_of_ofValue hx
  colour d hd s hs hk := by
    obtain ⟨x, hx⟩ := h d hd
    exact Declaration.admits_colour_of_ofValue hx (List.mem_of_mem_filter hs) hk

/-- The fields of the stock types. -/
theorem forall_fields_stock {P : Socket → Prop}
    (hwait : P ⟨.text "SECONDS", .number, none, .int 1, .int 0, .null, .int 1⟩)
    (htext : P ⟨.text "TEXT", .text, none, .text "", .null, .null, .null⟩)
    (hcolour : P ⟨.text "COLOUR", .colour, none, .text "#ff0000", .null, .null, .null⟩)
    (hnumber : P ⟨.text "NUM", .number, none, .int 0, .null, .null, .null⟩) :
    ∀ d ∈ stock.declarations, ∀ s ∈ d.fields, P s := by
  intro d hd s hs
  simp only [stock, List.mem_cons, List.not_mem_nil, or_false] at hd
  rcases hd with rfl | rfl | rfl | rfl | rfl | rfl | rfl
  · cases hs
  · exact List.mem_singleton.mp hs ▸ hwait
  · exact List.mem_singleton.mp hs ▸ htext
  · cases hs
  · exact List.mem_singleton.mp hs ▸ hcolour
  · cases hs
  · exact List.mem_singleton.mp hs ▸ hnumber

theorem bounded_stock : stock.Bounded := by
  refine forall_fields_stock (fun _ => ?_) nofun nofun fun _ => ?_
  · exact ⟨fun _ h => Option.some.inj h ▸ rfl, (fun _ h => nomatch h), (fun _ _ _ h => nomatch h)⟩
  · exact ⟨(fun _ h => nomatch h), (fun _ h => nomatch h), (fun _ _ h => nomatch h)⟩

theorem fitting_stock : stock.Fitting := by
  refine forall_fields_stock ?_ ?_ ?_ ?_
  · refine ⟨fun _ => ⟨.int 1, rfl, rfl, fun lo h => ?_, (fun _ h => nomatch h)⟩, nofun, nofun⟩
    obtain rfl := Option.some.inj h
    decide
  · exact ⟨nofun, nofun, fun _ => ⟨_, rfl⟩⟩
  · exact ⟨nofun, fun _ => ⟨_, rfl, Rgb.isHex_hex ⟨255, 0, 0⟩⟩, nofun⟩
  · exact ⟨fun _ => ⟨.int 0, rfl, rfl, (fun _ h => nomatch h), (fun _ h => nomatch h)⟩, nofun, nofun⟩

theorem declared_stock : stock.Declared where
  articulate := articulate_stock
  colour d hd s hs _ := fitting_stock d hd s hs

/-- What holds of the stock types and of the declared ones holds of the types of a workspace. -/
theorem orStock_induct {P : Vocabulary → Prop} (hstock : P stock) (h : P v) : P v.orStock := by
  change P (if v.declarations.isEmpty then stock else v)
  split
  · exact hstock
  · exact h

end Vocabulary

/-! ### Chronicles -/

section

variable {σ : Type} {a : Audience σ} {v : Vocabulary} {w : Workspace} {k : Key} {b : Block}

/-- **A field holds what its domain admits, or its default as it was declared**, and a colour field
always holds a colour in written form. -/
theorem Chronicle.holds_default_or_admits (h : Chronicle a v w) (ha : a.Docile) (hv : v.Declared)
    (hbounded : v.Bounded) (hb : w.find? k = some b) :
    ∃ d, (do v.orStock.get (← b.type.toKey)) = .ok d ∧ ∀ s ∈ d.fields, ∀ name,
      s.name.key? = some name → ∃ u, Entries.get? b.fields name = some u ∧
        (s.Admits u ∨ s.kind ≠ .colour ∧ u = s.default) := by
  have hv := Vocabulary.orStock_induct (P := Vocabulary.Declared) Vocabulary.declared_stock hv
  have hbounded :=
    Vocabulary.orStock_induct (P := Vocabulary.Bounded) Vocabulary.bounded_stock hbounded
  obtain ⟨d, hd, hkept⟩ := h.blocks ha (Block.standing_kept hv.articulate) hb
  have hmem := Vocabulary.mem_of_lookup hd
  refine ⟨d, hd, fun s hs name hname => ?_⟩
  obtain ⟨u, hu, rfl | ⟨u', hu'⟩⟩ := hkept s hs name hname
  · by_cases hk : s.kind = .colour
    · exact ⟨_, hu, .inl (hv.colour d hmem s hs hk)⟩
    · exact ⟨_, hu, .inr ⟨hk, rfl⟩⟩
  · exact ⟨u, hu, .inl (Socket.admits_of_coerce (hbounded d hmem s hs) hu')⟩

/-- **Where the defaults are in their domains, so is whatever a field holds.** -/
theorem Chronicle.admits (h : Chronicle a v w) (ha : a.Docile) (hv : v.Declared)
    (hbounded : v.Bounded) (hfitting : v.Fitting) (hb : w.find? k = some b) :
    ∃ d, (do v.orStock.get (← b.type.toKey)) = .ok d ∧ ∀ s ∈ d.fields, ∀ name,
      s.name.key? = some name → ∃ u, Entries.get? b.fields name = some u ∧ s.Admits u := by
  have hfitting :=
    Vocabulary.orStock_induct (P := Vocabulary.Fitting) Vocabulary.fitting_stock hfitting
  obtain ⟨d, hd, hfields⟩ := h.holds_default_or_admits ha hv hbounded hb
  refine ⟨d, hd, fun s hs name hname => ?_⟩
  obtain ⟨u, hu, hadmits | ⟨-, rfl⟩⟩ := hfields s hs name hname
  · exact ⟨u, hu, hadmits⟩
  · exact ⟨_, hu, hfitting d (Vocabulary.mem_of_lookup hd) s hs⟩

end

end Blockwork
