import Blockwork.Proofs.Printing
import Blockwork.Value

/-!
# Literals

Where a literal ends can be seen from its characters.  A text ends with the mark that it begins with,
since its own characters are read back one by one (`Text.unescape_escape`); any other literal ends
where a character comes that no such literal has (`Text.isWord`).  So two literals that are the same
up to what comes after them are literals of one key (`Key.quoted_append_inj`), except that a literal
does not show the payload of what is not a number (`Key.Akin`).
-/

namespace Blockwork

namespace Text

/-! ### Reading escapes -/

/-- The value of a digit to base sixteen. -/
def hexDigit (c : Char) : Nat := if c.isDigit then c.toNat - 48 else c.toNat - 87

/-- The number that a row of digits to base sixteen denotes. -/
def ofHex (cs : List Char) : Nat := cs.foldl (fun n c => 16 * n + hexDigit c) 0

/-- The character with a number of so many digits, and what comes after it. -/
def unnumber (width : Nat) (cs : List Char) : Char × List Char :=
  (Char.ofNat (ofHex (cs.take width)), cs.drop width)

/-- The first character that is written in a row, and what comes after it. -/
def unescape : List Char → Option (Char × List Char)
  | '\\' :: c :: cs => some (
    if c = 'n' then ('\n', cs) else if c = 'r' then ('\r', cs) else if c = 't' then ('\t', cs)
    else if c = 'x' then unnumber 2 cs else if c = 'u' then unnumber 4 cs
    else if c = 'U' then unnumber 8 cs else (c, cs))
  | c :: cs => some (c, cs)
  | [] => none

variable {mark c : Char} {cs ds rest rest' : List Char}

theorem length_hex (width n : Nat) : (hex width n).length = width := by
  induction width generalizing n with
  | zero => rfl
  | succ width ih => rw [hex, List.length_append, ih, List.length_singleton]

theorem ofHex_hex (width n : Nat) : ofHex (hex width n) = n % 16 ^ width := by
  have hdigit : ∀ d < 16, hexDigit (Nat.digitChar d) = d := by decide
  induction width generalizing n with
  | zero => rw [hex, Nat.pow_zero, Nat.mod_one]; rfl
  | succ width ih =>
      have hrest : ofHex (hex width (n / 16)) = n / 16 % 16 ^ width := ih (n / 16)
      rw [ofHex] at hrest
      rw [ofHex, hex, List.foldl_append, hrest, List.foldl_cons, List.foldl_nil,
        hdigit _ (Nat.mod_lt n (by decide)), Nat.pow_succ', Nat.mod_mul, Nat.add_comm]

theorem unnumber_hex {width : Nat} (h : c.toNat < 16 ^ width) (rest : List Char) :
    unnumber width (hex width c.toNat ++ rest) = (c, rest) := by
  have hlength := length_hex width c.toNat
  rw [unnumber, List.take_left' hlength, List.drop_left' hlength, ofHex_hex, Nat.mod_eq_of_lt h,
    Char.ofNat_toNat]

theorem unescape_of_ne (h : c ≠ '\\') (rest : List Char) : unescape (c :: rest) = some (c, rest) := by
  unfold unescape
  split
  · rename_i he
    exact absurd (List.cons.inj he).1 h
  · rename_i he
    obtain ⟨rfl, rfl⟩ := List.cons.inj he
    rfl
  · rename_i he
    cases he

/-- **An escaped character is read back**, whatever comes after it. -/
theorem unescape_escape (hm : mark = '\'' ∨ mark = '"') (c : Char) (rest : List Char) :
    unescape (escape mark c ++ rest) = some (c, rest) := by
  unfold escape
  split
  · rename_i h
    have hplain : c = '\'' ∨ c = '"' ∨ c = '\\' := by
      rcases h with rfl | rfl
      · exact or_assoc.mp (.inl hm)
      · exact .inr (.inr rfl)
    rcases hplain with rfl | rfl | rfl
    · rfl
    · rfl
    · rfl
  rename_i hmark
  split
  · rename_i h
    rw [h]
    rfl
  split
  · rename_i h
    rw [h]
    rfl
  split
  · rename_i h
    rw [h]
    rfl
  split
  · exact unescape_of_ne (fun h => hmark (.inr h)) rest
  · unfold numbered
    split
    · rename_i h
      exact congrArg some (unnumber_hex h rest)
    split
    · rename_i h
      exact congrArg some (unnumber_hex h rest)
    · have hlt : c.toNat < 16 ^ 8 := c.val.toNat_lt
      exact congrArg some (unnumber_hex hlt rest)

/-- An escaped character does not begin with the mark, which it would end the text with. -/
theorem exists_escape (hm : mark = '\'' ∨ mark = '"') (c : Char) :
    ∃ d ds, escape mark c = d :: ds ∧ d ≠ mark := by
  have hslash : '\\' ≠ mark := by
    rcases hm with rfl | rfl
    · decide
    · decide
  unfold escape
  split
  · exact ⟨_, _, rfl, hslash⟩
  rename_i hmark
  split
  · exact ⟨_, _, rfl, hslash⟩
  split
  · exact ⟨_, _, rfl, hslash⟩
  split
  · exact ⟨_, _, rfl, hslash⟩
  split
  · exact ⟨_, _, rfl, fun h => hmark (.inl h)⟩
  · unfold numbered
    split
    · exact ⟨_, _, rfl, hslash⟩
    split
    · exact ⟨_, _, rfl, hslash⟩
    · exact ⟨_, _, rfl, hslash⟩

/-- Escaped characters are the same up to the mark behind them only if the characters are. -/
theorem escapes_append_inj (hm : mark = '\'' ∨ mark = '"')
    (h : cs.flatMap (escape mark) ++ mark :: rest = ds.flatMap (escape mark) ++ mark :: rest') :
    cs = ds ∧ rest = rest' := by
  have hstop {c : Char} {es fs : List Char} (he : mark :: es = escape mark c ++ fs) : False := by
    obtain ⟨d, ds, hescape, hd⟩ := exists_escape hm c
    rw [hescape] at he
    exact hd (List.cons.inj he).1.symm
  induction cs generalizing ds with
  | nil =>
      cases ds with
      | nil => exact ⟨rfl, (List.cons.inj h).2⟩
      | cons d ds =>
          rw [List.flatMap_cons, List.append_assoc] at h
          exact (hstop h).elim
  | cons c cs ih =>
      cases ds with
      | nil =>
          rw [List.flatMap_cons, List.append_assoc] at h
          exact (hstop h.symm).elim
      | cons d ds =>
          rw [List.flatMap_cons, List.flatMap_cons, List.append_assoc, List.append_assoc] at h
          have hread := unescape_escape hm c (cs.flatMap (escape mark) ++ mark :: rest)
          rw [h, unescape_escape hm d] at hread
          obtain ⟨rfl, htail⟩ := Prod.mk.inj (Option.some.inj hread)
          obtain ⟨rfl, rfl⟩ := ih htail.symm
          exact ⟨rfl, rfl⟩

theorem markFor_eq (cs : List Char) : markFor cs = '\'' ∨ markFor cs = '"' := by
  unfold markFor
  split
  · exact .inr rfl
  · exact .inl rfl

/-- **A quoted text shows where it ends.** -/
theorem quotedChars_append_inj (h : quotedChars cs ++ rest = quotedChars ds ++ rest') :
    cs = ds ∧ rest = rest' := by
  rw [quotedChars, quotedChars, List.cons_append, List.cons_append] at h
  obtain ⟨hmark, hbody⟩ := List.cons.inj h
  rw [← hmark, List.append_assoc, List.append_assoc] at hbody
  exact escapes_append_inj (markFor_eq cs) hbody

theorem newline_notMem_hex (width n : Nat) : '\n' ∉ hex width n := by
  have hdigit : ∀ d < 16, '\n' ≠ Nat.digitChar d := by decide
  induction width generalizing n with
  | zero => exact List.not_mem_nil
  | succ width ih =>
      rw [hex, List.mem_append, List.mem_singleton]
      exact not_or.mpr ⟨ih _, hdigit _ (Nat.mod_lt n (by decide))⟩

theorem newline_notMem_escape (hm : mark = '\'' ∨ mark = '"') (c : Char) :
    '\n' ∉ escape mark c := by
  have hmark : '\n' ≠ mark := by
    rcases hm with rfl | rfl
    · decide
    · decide
  unfold escape
  split
  · rename_i h
    rcases h with rfl | rfl
    · simp [hmark]
    · decide
  split
  · decide
  split
  · decide
  split
  · decide
  split
  · rename_i h _ _ _
    simp [Ne.symm h]
  · unfold numbered
    split
    · simp [newline_notMem_hex]
    split
    · simp [newline_notMem_hex]
    · simp [newline_notMem_hex]

/-- The literal of a text is on one line. -/
theorem newline_notMem_quotedChars (cs : List Char) : '\n' ∉ quotedChars cs := by
  have hm := markFor_eq cs
  have hmark : '\n' ≠ markFor cs := by
    rcases hm with h | h
    · rw [h]; decide
    · rw [h]; decide
  rw [quotedChars]
  simp only [List.mem_cons, List.mem_append, List.mem_flatMap, List.not_mem_nil, or_false, not_or]
  exact ⟨hmark, fun ⟨c, _, hc⟩ => newline_notMem_escape hm c hc, hmark⟩

/-! ### Words -/

/-- Whether a character is one of a name, or of a literal that is no text. -/
def isWord (c : Char) : Bool :=
  c.isAlphanum || c == '_' || c == '.' || c == '+' || c == '-'

/-- Whether all of a row are characters of a word, and there are some. -/
structure Word (cs : List Char) : Prop where
  ne_nil : cs ≠ []
  forall_mem : ∀ c ∈ cs, isWord c = true

/-- Whether no word goes on in a row. -/
def Stops (cs : List Char) : Prop := ∀ c ∈ cs.head?, isWord c = false

/-- **A word shows where it ends**, if no character of a word comes after it. -/
theorem Word.append_inj (h : Word cs) (h' : Word ds) (hrest : Stops rest) (hrest' : Stops rest')
    (he : cs ++ rest = ds ++ rest') : cs = ds ∧ rest = rest' := by
  have htake {es fs : List Char} (hes : Word es) (hfs : Stops fs) :
      (es ++ fs).takeWhile isWord = es := by
    rw [List.takeWhile_append_of_pos hes.forall_mem]
    cases fs with
    | nil => simp
    | cons f fs => rw [List.takeWhile_cons_of_neg (by simp [hfs f rfl]), List.append_nil]
  obtain rfl : cs = ds := by rw [← htake h hrest, he, htake h' hrest']
  exact ⟨rfl, List.append_cancel_left he⟩

theorem Word.newline_notMem (h : Word cs) : '\n' ∉ cs := fun hmem =>
  absurd (h.forall_mem _ hmem) (by decide)

end Text

/-! ### Keys -/

namespace Decimal

theorem isWord_of_isDigit {c : Char} (h : c.isDigit = true) : Text.isWord c = true := by
  rw [Text.isWord, Char.isAlphanum, h]
  simp

/-- What comes before the digits of a whole number. -/
theorem toList_integer (i : Int) :
    (integer i).toList = (if i < 0 then ['-'] else []) ++ digits i.natAbs := by
  unfold integer
  split
  · exact String.toList_ofList
  · exact String.toList_ofList

theorem mem_integer {i : Int} {c : Char} (hc : c ∈ (integer i).toList) :
    c = '-' ∨ c.isDigit = true := by
  rw [toList_integer, List.mem_append] at hc
  rcases hc with hc | hc
  · split at hc
    · exact .inl (List.mem_singleton.mp hc)
    · cases hc
  · exact .inr (digits_digits _ c hc)

theorem word_integer (i : Int) : Text.Word (integer i).toList where
  ne_nil := by
    rw [toList_integer]
    exact List.append_ne_nil_of_right_ne_nil _ (digits_ne_nil _)
  forall_mem c hc := by
    rcases mem_integer hc with rfl | hc
    · rfl
    · exact isWord_of_isDigit hc

/-- Different whole numbers are written differently, also negative ones. -/
theorem integer_inj {i j : Int} (h : integer i = integer j) : i = j := by
  have hchars := congrArg String.toList h
  rw [toList_integer, toList_integer] at hchars
  have hdash (m : Nat) (cs : List Char) : digits m ≠ '-' :: cs := fun he => by
    have hmem := digits_digits m '-' (he ▸ List.mem_cons_self)
    cases hmem
  split at hchars
  · split at hchars
    · have habs := digits_injective (List.cons.inj hchars).2
      omega
    · exact absurd hchars.symm (hdash _ _)
  · split at hchars
    · exact absurd hchars (hdash _ _)
    · have habs := digits_injective hchars
      omega

theorem isWord_of_mem : ∀ c ∈ numeralChars, Text.isWord c = true :=
  forall_mem_of_all (by decide)

theorem word_text (x : Binary64) : Text.Word (text .plain x).toList := by
  cases x with
  | nan n =>
      change Text.Word "nan".toList
      exact ⟨by decide, Decimal.forall_mem_of_all (by decide)⟩
  | infinite s =>
      cases s with
      | true => exact ⟨by decide, Decimal.forall_mem_of_all (by decide)⟩
      | false => exact ⟨by decide, Decimal.forall_mem_of_all (by decide)⟩
  | finite s m e h =>
      have hplain := plain_text (x := .finite s m e h) rfl
      refine ⟨fun hnil => ?_, fun c hc => isWord_of_mem c (hplain c hc)⟩
      have hmarked := marked_text (x := .finite s m e h) rfl
      rw [hnil] at hmarked
      simp at hmarked

end Decimal

namespace Key

open Text (Word Stops)

variable {j k : Key} {rest rest' : List Char}

/-- Whether a key is a number or nothing that is told from all others by how it is written. -/
def Definite (k : Key) : Prop := ∀ n, k ≠ .float (.nan n)

/-- Whether two keys are the same, but for the payloads of what is not a number. -/
inductive Akin : Key → Key → Prop where
  | refl (k : Key) : Akin k k
  | notANumber (m n : Nat) : Akin (.float (.nan m)) (.float (.nan n))

theorem Akin.eq (h : j.Akin k) (hj : j.Definite) : j = k := by
  cases h with
  | refl => rfl
  | notANumber m n => exact absurd rfl (hj m)

/-- Literals are texts or words. -/
theorem word_quoted (h : ∀ s, k ≠ .text s) : Word k.quoted.toList := by
  cases k with
  | null => exact ⟨by decide, Decimal.forall_mem_of_all (by decide)⟩
  | text s => exact absurd rfl (h s)
  | int i => exact Decimal.word_integer i
  | float x => exact Decimal.word_text x
  | bool b =>
      cases b with
      | true => exact ⟨by decide, Decimal.forall_mem_of_all (by decide)⟩
      | false => exact ⟨by decide, Decimal.forall_mem_of_all (by decide)⟩

/-- What kind of a value a key is. -/
def kind : Key → Nat
  | .null => 0
  | .bool _ => 1
  | .float _ => 2
  | .int _ => 3
  | .text _ => 4

/-- What kind of a value a word is the literal of. -/
def kindOf (cs : List Char) : Nat :=
  if 'N' ∈ cs then 0 else if 'T' ∈ cs ∨ 'F' ∈ cs then 1
  else if '.' ∈ cs ∨ 'e' ∈ cs ∨ 'n' ∈ cs then 2 else 3

theorem kindOf_float (x : Binary64) : kindOf (Decimal.text .plain x).toList = 2 := by
  cases x with
  | nan n =>
      change kindOf "nan".toList = 2
      decide
  | infinite s => cases s <;> decide
  | finite s m e h =>
      have hplain := Decimal.plain_text (x := .finite s m e h) rfl
      have hmarked := Decimal.marked_text (x := .finite s m e h) rfl
      have hnone {c : Char} (hc : c ∉ Decimal.numeralChars) :
          c ∉ (Decimal.text .plain (.finite s m e h)).toList := fun hmem => hc (hplain c hmem)
      rw [kindOf, if_neg (hnone (by decide)), if_neg (not_or.mpr ⟨hnone (by decide), hnone (by decide)⟩),
        if_pos (hmarked.imp_right .inl)]

/-- The kind of a value can be told from its literal. -/
theorem kindOf_quoted (h : ∀ s, k ≠ .text s) : kindOf k.quoted.toList = k.kind := by
  cases k with
  | null => decide
  | text s => exact absurd rfl (h s)
  | bool b => cases b <;> decide
  | float x => exact kindOf_float x
  | int i =>
      have hnone {c : Char} (hc : c ≠ '-') (hd : c.isDigit = false) :
          c ∉ (Key.int i).quoted.toList := fun hmem => by
        rcases Decimal.mem_integer hmem with h | h
        · exact hc h
        · rw [hd] at h
          cases h
      rw [kindOf, if_neg (hnone (by decide) rfl),
        if_neg (not_or.mpr ⟨hnone (by decide) rfl, hnone (by decide) rfl⟩),
        if_neg (not_or.mpr ⟨hnone (by decide) rfl,
          not_or.mpr ⟨hnone (by decide) rfl, hnone (by decide) rfl⟩⟩)]
      rfl

/-- Different numbers are not printed alike. -/
theorem akin_of_text_eq {x y : Binary64} (h : Decimal.text .plain x = Decimal.text .plain y) :
    Akin (.float x) (.float y) := by
  have hword {x : Binary64} (hx : x.isFinite = true) {s : String} (hs : 'n' ∈ s.toList) :
      Decimal.text .plain x ≠ s := by
    rintro rfl
    exact absurd (Decimal.plain_text hx _ hs) (by decide)
  have hinfinity (s : Bool) : 'n' ∈ (Decimal.text .plain (.infinite s)).toList := by
    cases s <;> decide
  have hnan (n : Nat) : Decimal.text .plain (.nan n) = "nan" := rfl
  cases x with
  | nan m =>
      cases y with
      | nan n => exact .notANumber m n
      | infinite t =>
          rw [hnan] at h
          cases t <;> exact absurd h (by decide)
      | finite t n f hf => exact absurd h.symm (hword rfl (by rw [hnan]; decide))
  | infinite s =>
      cases y with
      | nan n =>
          rw [hnan] at h
          cases s <;> exact absurd h (by decide)
      | infinite t => cases s <;> cases t <;> first | exact .refl _ | exact absurd h (by decide)
      | finite t n f hf => exact absurd h.symm (hword rfl (hinfinity s))
  | finite s m e he =>
      cases y with
      | nan n => exact absurd h (hword rfl (by rw [hnan]; decide))
      | infinite t => exact absurd h (hword rfl (hinfinity t))
      | finite t n f hf => exact Decimal.text_injective rfl rfl h ▸ .refl _

/-- Different keys that are no texts have different literals. -/
theorem akin_of_quoted_eq (htext : ∀ s, j ≠ .text s) (htext' : ∀ s, k ≠ .text s)
    (h : j.quoted = k.quoted) : j.Akin k := by
  have hkind : j.kind = k.kind := by rw [← kindOf_quoted htext, h, kindOf_quoted htext']
  cases j with
  | text s => exact absurd rfl (htext s)
  | null =>
      cases k with
      | null => exact .refl _
      | text | bool | int | float => cases hkind
  | bool a =>
      cases k with
      | bool b => cases a <;> cases b <;> first | exact .refl _ | exact absurd h (by decide)
      | null | text | int | float => cases hkind
  | int i =>
      cases k with
      | int j => exact Decimal.integer_inj h ▸ .refl _
      | null | text | bool | float => cases hkind
  | float x =>
      cases k with
      | float y => exact akin_of_text_eq h
      | null | text | bool | int => cases hkind

theorem toList_quoted_text (s : String) :
    (Key.text s).quoted.toList = Text.quotedChars s.toList := String.toList_ofList

theorem exists_quoted_text (s : String) : ∃ mark cs, (Key.text s).quoted.toList = mark :: cs ∧
    (mark = '\'' ∨ mark = '"') :=
  ⟨_, _, toList_quoted_text s, Text.markFor_eq _⟩

/-- A text and a word do not begin alike. -/
theorem quoted_text_ne_word {s : String} {cs : List Char} (h : Word cs) :
    (Key.text s).quoted.toList ++ rest ≠ cs ++ rest' := by
  obtain ⟨mark, ds, hquoted, hmark⟩ := exists_quoted_text s
  obtain ⟨c, cs, rfl⟩ := List.exists_cons_of_ne_nil h.ne_nil
  rw [hquoted]
  intro he
  have hc := h.forall_mem c List.mem_cons_self
  rw [← (List.cons.inj he).1] at hc
  rcases hmark with rfl | rfl
  · cases hc
  · cases hc

/-- **The literal of a key shows where it ends**, if no character of a word comes after it. -/
theorem quoted_append_inj (hrest : Stops rest) (hrest' : Stops rest')
    (h : j.quoted.toList ++ rest = k.quoted.toList ++ rest') :
    j.Akin k ∧ rest = rest' := by
  by_cases htext : ∃ s, j = .text s
  · obtain ⟨s, rfl⟩ := htext
    by_cases htext' : ∃ t, k = .text t
    · obtain ⟨t, rfl⟩ := htext'
      rw [toList_quoted_text, toList_quoted_text] at h
      obtain ⟨hchars, hrest⟩ := Text.quotedChars_append_inj h
      rw [String.toList_inj.mp hchars]
      exact ⟨.refl _, hrest⟩
    · exact absurd h (quoted_text_ne_word (word_quoted (not_exists.mp htext')))
  · have hword := word_quoted (not_exists.mp htext)
    by_cases htext' : ∃ t, k = .text t
    · obtain ⟨t, rfl⟩ := htext'
      exact absurd h.symm (quoted_text_ne_word hword)
    · obtain ⟨hchars, hrest⟩ :=
        hword.append_inj (word_quoted (not_exists.mp htext')) hrest hrest' h
      exact ⟨akin_of_quoted_eq (not_exists.mp htext) (not_exists.mp htext')
        (String.toList_inj.mp hchars), hrest⟩

/-- A literal is on one line. -/
theorem newline_notMem_quoted (k : Key) : '\n' ∉ k.quoted.toList := by
  by_cases htext : ∃ s, k = .text s
  · obtain ⟨s, rfl⟩ := htext
    rw [toList_quoted_text]
    exact Text.newline_notMem_quotedChars _
  · exact (word_quoted (not_exists.mp htext)).newline_notMem

end Key

theorem Value.quoted_ofKey (k : Key) : (Value.ofKey k).quoted = k.quoted := by
  cases k <;> rfl

end Blockwork
