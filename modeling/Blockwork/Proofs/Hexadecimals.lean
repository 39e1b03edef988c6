import Blockwork.Proofs.Domains
import Blockwork.Proofs.Schemas

/-!
# Hexadecimal colours

Which texts denote colours, and which colours they denote.  A text without the blanks around it is
held against a pattern (`Rgb.Matches`): a number sign, which may be left out, and six digits of either
case.  The pattern also allows for a line break at the end, which is a blank and so is never there.
What the reader reads are just the texts that the pattern matches, and the digits in lower case are
those that the colour is written with (`Rgb.ofHex?_eq_some_iff`).

So a colour that is written and read again is the same colour, and the written form of a text is read
as what the text is read as.  Raising channels by one amount and then by another one is raising them
by both at once (`Rgb.codec_consistent`).
-/

namespace Blockwork

/-- The last item that is left at the end of a list is one that is not trimmed. -/
theorem Text.not_of_getLast?_trimBy {p : Char → Bool} {cs : List Char} {c : Char}
    (h : (trimBy p cs).getLast? = some c) : p c = false := by
  have hhead := List.head?_dropWhile_not p (cs.dropWhile p).reverse
  rw [trimBy, List.getLast?_reverse] at h
  rwa [h] at hhead

namespace Rgb

variable {c : Rgb} {d a b : Char} {ds cs : List Char} {s : String}

/-! ### Digits -/

/-- Whether a character is a hexadecimal digit, of either case. -/
def isHexDigit (d : Char) : Bool :=
  ('0' ≤ d && d ≤ '9') || ('a' ≤ d && d ≤ 'f') || ('A' ≤ d && d ≤ 'F')

theorem isSome_digit? (d : Char) : (digit? d).isSome = isHexDigit d := by
  unfold digit? isHexDigit
  split
  · simp [*]
  · split
    · simp [*]
    · split <;> simp_all

/-- A digit has the value whose digit it is in lower case. -/
theorem digit?_eq_some_iff {v : Fin 16} : digit? d = some v ↔ d.toLower = Nat.digitChar v := by
  by_cases hd : d.toNat < 128
  · have hall : ∀ (i : Fin 128) (v : Fin 16), digit? (Char.ofNat i) = some v ↔
        (Char.ofNat i).toLower = Nat.digitChar v := by decide +kernel
    rw [← Char.ofNat_toNat d]
    exact hall ⟨d.toNat, hd⟩ v
  · -- beyond the first 128 characters there are no digits, and none in lower case
    have hbeyond (e : Char) (he : e.toNat < 128) : ¬ d ≤ e := fun hde =>
      hd (Nat.lt_of_le_of_lt hde he)
    have hnone : digit? d = none := by simp [digit?, hbeyond]
    have hlower : d.toLower = d := dif_neg fun h => hbeyond 'Z' (by decide) h.2
    have hsmall : ∀ v : Fin 16, (Nat.digitChar v).toNat < 128 := by decide
    rw [hnone, hlower]
    exact iff_of_false (Option.some_ne_none v).symm fun he => hd (he ▸ hsmall v)

/-- Two digits denote the channel that they are the digits of in lower case. -/
theorem channel?_eq_some_iff {c : Fin 256} :
    channel? a b = some c ↔ [a.toLower, b.toLower] = hexDigits c := by
  have hdigits : [a.toLower, b.toLower] = hexDigits c ↔
      digit? a = some ⟨c / 16, by omega⟩ ∧ digit? b = some ⟨c % 16, by omega⟩ := by
    rw [digit?_eq_some_iff, digit?_eq_some_iff, hexDigits]
    simp
  rw [hdigits]
  cases ha : digit? a with
  | none => simp [channel?, ha]
  | some x =>
      cases hb : digit? b with
      | none => simp [channel?, ha, hb]
      | some y =>
          simp only [channel?, ha, hb, Option.bind_eq_bind, Option.bind_some, Option.some.injEq,
            Fin.ext_iff]
          omega

theorem isSome_channel? (a b : Char) :
    (channel? a b).isSome = (isHexDigit a && isHexDigit b) := by
  rw [← isSome_digit?, ← isSome_digit?]
  unfold channel?
  cases digit? a <;> cases digit? b <;> rfl

theorem ofDigits?_of_length_ne (h : ds.length ≠ 6) : ofDigits? ds = none := by
  unfold ofDigits?
  split
  · exact absurd rfl h
  · rfl

/-- Six digits denote the colour that is written with them in lower case. -/
theorem ofDigits?_eq_some_iff :
    ofDigits? ds = some c ↔ '#' :: ds.map Char.toLower = c.hexChars := by
  by_cases hlength : ds.length = 6
  · match ds, hlength with
    | [d₁, d₂, d₃, d₄, d₅, d₆], _ =>
      have hchannels : '#' :: [d₁, d₂, d₃, d₄, d₅, d₆].map Char.toLower = c.hexChars ↔
          [d₁.toLower, d₂.toLower] = hexDigits c.red ∧ [d₃.toLower, d₄.toLower] = hexDigits c.green ∧
            [d₅.toLower, d₆.toLower] = hexDigits c.blue := by
        simp [hexChars, hexDigits, and_assoc]
      rw [hchannels, ← channel?_eq_some_iff, ← channel?_eq_some_iff, ← channel?_eq_some_iff]
      obtain ⟨red, green, blue⟩ := c
      simp [ofDigits?, Option.bind_eq_some_iff]
  · rw [ofDigits?_of_length_ne hlength]
    refine iff_of_false (Option.some_ne_none c).symm fun h => hlength ?_
    simpa [hexChars, hexDigits] using congrArg List.length h

/-- Only six digits denote a colour. -/
theorem isSome_ofDigits? (ds : List Char) :
    (ofDigits? ds).isSome = true ↔ ds.length = 6 ∧ ds.all isHexDigit = true := by
  by_cases hlength : ds.length = 6
  · match ds, hlength with
    | [d₁, d₂, d₃, d₄, d₅, d₆], _ =>
      have hchannels : (ofDigits? [d₁, d₂, d₃, d₄, d₅, d₆]).isSome =
          ((channel? d₁ d₂).isSome && (channel? d₃ d₄).isSome && (channel? d₅ d₆).isSome) := by
        simp only [ofDigits?]
        cases channel? d₁ d₂ <;> cases channel? d₃ d₄ <;> cases channel? d₅ d₆ <;> rfl
      rw [hchannels]
      simp [isSome_channel?, and_assoc]
  · simp [ofDigits?_of_length_ne hlength, hlength]

/-! ### The pattern -/

/-- Whether the pattern of written colours matches a row of characters, with some of them as its
digits.  The end of the row is also found before a line break. -/
inductive Matches : List Char → List Char → Prop where
  | mk {sign digits rest : List Char} : sign = [] ∨ sign = ['#'] → digits.length = 6 →
      digits.all isHexDigit = true → rest = [] ∨ rest = ['\n'] →
      Matches (sign ++ digits ++ rest) digits

theorem Matches.digits (h : Matches cs ds) : ds.length = 6 ∧ ds.all isHexDigit = true := by
  obtain ⟨-, hlength, hall, -⟩ := h
  exact ⟨hlength, hall⟩

/-- A number sign before digits is left out. -/
theorem ofChars?_append {sign : List Char} (hsign : sign = [] ∨ sign = ['#'])
    (hds : ds.all isHexDigit = true) : ofChars? (sign ++ ds) = ofDigits? ds := by
  rcases hsign with rfl | rfl
  · rw [List.nil_append]
    unfold ofChars?
    split
    · exact absurd (List.all_eq_true.mp hds '#' List.mem_cons_self) (by decide)
    · rfl
  · rfl

theorem exists_append_of_ofChars? (h : ofChars? cs = some c) :
    ∃ sign ds, cs = sign ++ ds ∧ (sign = [] ∨ sign = ['#']) ∧ ofDigits? ds = some c := by
  unfold ofChars? at h
  split at h
  · exact ⟨['#'], _, rfl, .inr rfl, h⟩
  · exact ⟨[], _, rfl, .inl rfl, h⟩

/-- A row of characters that does not end with a line break is read as a colour just when the pattern
matches it with the digits of the colour. -/
theorem ofChars?_eq_some_iff (hcs : cs.getLast? ≠ some '\n') :
    ofChars? cs = some c ↔ ∃ ds, Matches cs ds ∧ '#' :: ds.map Char.toLower = c.hexChars := by
  constructor
  · intro h
    obtain ⟨sign, ds, rfl, hsign, hds⟩ := exists_append_of_ofChars? h
    obtain ⟨hlength, hall⟩ := (isSome_ofDigits? ds).mp (by rw [hds]; rfl)
    have hmatches : Matches (sign ++ ds ++ []) ds := .mk hsign hlength hall (.inl rfl)
    rw [List.append_nil] at hmatches
    exact ⟨ds, hmatches, ofDigits?_eq_some_iff.mp hds⟩
  · rintro ⟨ds, ⟨hsign, hlength, hall, hrest⟩, hds⟩
    rcases hrest with rfl | rfl
    · rw [List.append_nil, ofChars?_append hsign hall]
      exact ofDigits?_eq_some_iff.mpr hds
    · exact absurd (List.getLast?_concat ..) hcs

/-- Whether the pattern matches a text without the blanks around it. -/
def Recognized (s : String) (ds : List Char) : Prop := Matches (Text.trim s).toList ds

/-- **A text is read as a colour just when the pattern is found in it**, and then the digits in lower
case are those that the colour is written with. -/
theorem ofHex?_eq_some_iff :
    ofHex? s = some c ↔ ∃ ds, Recognized s ds ∧ '#' :: ds.map Char.toLower = c.hexChars := by
  unfold ofHex? Recognized
  rw [Text.trim, String.toList_ofList]
  refine ofChars?_eq_some_iff fun h => ?_
  exact absurd (Text.not_of_getLast?_trimBy h) (by decide)

example : ofHex? "\u2003FFa000\n" = some ⟨255, 160, 0⟩ := by decide +kernel

/-- A text that the pattern is found in denotes a colour. -/
theorem Recognized.exists_ofHex? (h : Recognized s ds) : ∃ c, ofHex? s = some c := by
  obtain ⟨c, hc⟩ := Option.isSome_iff_exists.mp ((isSome_ofDigits? ds).mpr (Matches.digits h))
  exact ⟨c, ofHex?_eq_some_iff.mpr ⟨ds, h, ofDigits?_eq_some_iff.mp hc⟩⟩

/-! ### Channels -/

theorem coe_clamp (i : Int) : ((clamp i : Nat) : Int) = max 0 (min 255 i) := by
  change ((min 255 i.toNat : Nat) : Int) = _
  omega

/-- The channels of a colour are numbers that a channel can have. -/
theorem ofInts_channels (c : Rgb) : ofInts c.red c.green c.blue = c := by
  have hclamp (c : Fin 256) : clamp c = c := by
    refine Fin.ext ?_
    change min 255 (c : Int).toNat = c
    omega
  rw [ofInts, hclamp, hclamp, hclamp]

/-- The written form of the colour that a value denotes. -/
def normalized (v : Value) : Except Error String := do
  let c ← ofValue v
  return (← ofChannels (.int c.red) (.int c.green) (.int c.blue)).hex

theorem normalized_of_ofValue {v : Value} (h : ofValue v = .ok c) : normalized v = .ok c.hex := by
  have hchannels : ofChannels (.int c.red) (.int c.green) (.int c.blue) = .ok c :=
    congrArg Except.ok c.ofInts_channels
  rw [normalized, h]
  change (do return (← ofChannels (.int c.red) (.int c.green) (.int c.blue)).hex) = _
  rw [hchannels]
  rfl

/-! ### Raised channels -/

/-- The colour with every channel raised by an amount, at most to the greatest value there is. -/
def raised (c : Rgb) (n : Nat) : Rgb := ofInts (c.red + n) (c.green + n) (c.blue + n)

/-- Whether the channels of a colour are those of another one, raised by an amount as far as
possible. -/
structure RaisedBy (c : Rgb) (n : Nat) (c' : Rgb) : Prop where
  red : (c'.red : Nat) = min 255 (c.red + n)
  green : (c'.green : Nat) = min 255 (c.green + n)
  blue : (c'.blue : Nat) = min 255 (c.blue + n)

theorem val_clamp_add (c : Fin 256) (n : Nat) :
    (clamp (c + n) : Nat) = min 255 (c + n) := rfl

theorem raisedBy_raised (c : Rgb) (n : Nat) : c.RaisedBy n (c.raised n) :=
  ⟨val_clamp_add .., val_clamp_add .., val_clamp_add ..⟩

/-- Raising channels twice is raising them by both amounts at once. -/
theorem raised_raised (c : Rgb) (m n : Nat) : (c.raised m).raised n = c.raised (m + n) := by
  have hclamp (c : Fin 256) : clamp (clamp (c + m) + n) = clamp (c + (m + n : Nat)) := by
    refine Fin.ext ?_
    rw [val_clamp_add, val_clamp_add, val_clamp_add]
    omega
  simp only [raised, ofInts, hclamp]

end Rgb

theorem Number.min_int (i j : Int) : (Number.int i).min (.int j) = .int (Min.min i j) := by
  rw [min, lt_int]
  by_cases h : j < i
  · rw [if_pos (decide_eq_true h), min_eq_right h.le]
  · rw [if_neg (by simpa using h), min_eq_left (not_lt.mp h)]

namespace Shade

open Rgb (ofValue)

theorem raise_int (n : Nat) (c : Fin 256) :
    raise (.int n) c = .ok (.int (min (c + n) 255)) :=
  congrArg Except.ok (Number.min_int (c + n) 255)

theorem raiseAll_int (n : Nat) (c : Rgb) : raiseAll (.int n) c = .ok (c.raised n) := by
  have hclamp (i : Int) : Rgb.clamp (min i 255) = Rgb.clamp i := by
    refine Fin.ext ?_
    change min 255 (min i 255).toNat = min 255 i.toNat
    omega
  have hraised : Rgb.ofInts (min (c.red + n) 255) (min (c.green + n) 255) (min (c.blue + n) 255) =
      c.raised n := by
    simp only [Rgb.ofInts, Rgb.raised, hclamp]
  rw [raiseAll, raise_int, raise_int, raise_int]
  exact congrArg Except.ok hraised

/-- A text that denotes a colour is lightened to the written form of the raised colour. -/
theorem lightenText_int {v : Value} {c : Rgb} (h : ofValue v = .ok c) (n : Nat) :
    lightenText ⟨.rgb, .int n⟩ v = .ok (c.raised n).hex := by
  rw [lightenText, h]
  change (do return (← raiseAll (.int n) c).hex) = _
  rw [raiseAll_int]
  rfl

end Shade

namespace Rgb

/-! ### The codec -/

/-- **Written colours are consistent.**  Channels of any size are written and read again as the
nearest ones that there are.  A text is either refused, when the pattern is not found in it, or it
denotes a colour.  Then its written form, the digits of the text in lower case, denotes the same
colour and is its own written form; raising its channels comes to the channels raised as far as
possible, and raising them twice to raising them by both amounts at once. -/
theorem codec_consistent :
    (∀ r g b : Int, ∃ c, ofChannels (.int r) (.int g) (.int b) = .ok c ∧
      ofValue (.text c.hex) = .ok c ∧ ((c.red : Nat) : Int) = max 0 (min 255 r) ∧
        ((c.green : Nat) : Int) = max 0 (min 255 g) ∧ ((c.blue : Nat) : Int) = max 0 (min 255 b)) ∧
    ∀ s : String,
      ((ofValue? (.text s)).isSome = false ∧ (¬ ∃ ds, Recognized s ds) ∧
        ofValue (.text s) = .error (.notHex (.text s))) ∨
      ((ofValue? (.text s)).isSome = true ∧ ∃ ds c t, Recognized s ds ∧ ofValue (.text s) = .ok c ∧
        normalized (.text s) = .ok t ∧ t.toList = '#' :: ds.map Char.toLower ∧ IsHex t ∧
        ofValue (.text t) = .ok c ∧ normalized (.text t) = .ok t ∧
        ∀ m n : Nat, ∃ u c', Shade.lightenText ⟨.rgb, .int m⟩ (.text s) = .ok u ∧
          ofValue (.text u) = .ok c' ∧ c.RaisedBy m c' ∧
          Shade.lightenText ⟨.rgb, .int n⟩ (.text u) =
            Shade.lightenText ⟨.rgb, .int (m + n)⟩ (.text s)) := by
  refine ⟨fun r g b => ⟨ofInts r g b, rfl, ofValue_hex _, coe_clamp r, coe_clamp g, coe_clamp b⟩,
    fun s => ?_⟩
  cases hc : ofHex? s with
  | none =>
      have hread : ofValue? (.text s) = none := hc
      refine .inl ⟨by rw [hread]; rfl, ?_, by rw [ofValue, hread]⟩
      rintro ⟨ds, hds⟩
      obtain ⟨c, hc'⟩ := hds.exists_ofHex?
      cases hc.symm.trans hc'
  | some c =>
      have hread : ofValue? (.text s) = some c := hc
      have hvalue : ofValue (.text s) = .ok c := by rw [ofValue, hread]
      obtain ⟨ds, hds, hdigits⟩ := ofHex?_eq_some_iff.mp hc
      have hhex : c.hex.toList = '#' :: ds.map Char.toLower := by
        rw [hex, String.toList_ofList, hdigits]
      refine .inr ⟨by rw [hread]; rfl, ds, c, c.hex, hds, hvalue, normalized_of_ofValue hvalue, hhex,
        c.isHex_hex, c.ofValue_hex, normalized_of_ofValue c.ofValue_hex, fun m n => ?_⟩
      refine ⟨_, c.raised m, Shade.lightenText_int hvalue m, ofValue_hex _, c.raisedBy_raised m, ?_⟩
      rw [Shade.lightenText_int (ofValue_hex _) n, raised_raised]
      exact (Shade.lightenText_int hvalue (m + n)).symm

end Rgb

end Blockwork
