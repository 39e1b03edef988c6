import Blockwork.Number.Binary64
import Blockwork.Text.Blank
import Blockwork.Text.Digit

/-!
# Decimals

Between double-precision numbers and decimal numerals.  A number is written with the fewest digits
that read back as it, and of those with the nearest (`Decimal.shortest`), or with so many digits at
most (`Decimal.rounded`); how the digits are laid out is a value of `Decimal.Layout`.  A numeral is
read by rounding its exact value once (`Decimal.value`).
-/

namespace Blockwork.Decimal

/-! ### Digits -/

/-- The digits of a whole number. -/
def digits (n : Nat) : List Char := Nat.toDigits 10 n

/-- A whole number with its sign. -/
def integer (i : Int) : String :=
  if i < 0 then String.ofList ('-' :: digits i.natAbs) else String.ofList (digits i.natAbs)

/-- The number that a row of digits denotes, digit by digit. -/
def ofDigitsEach (ds : List Char) : Nat :=
  ds.foldl (fun n c => 10 * n + (c.toNat - '0'.toNat)) 0

/-- The number that a row of digits denotes, where the row is halved `halvings` times. -/
def ofDigitsHalved : Nat → List Char → Nat
  | 0, ds => ofDigitsEach ds
  | halvings + 1, ds =>
    let half := ds.length / 2
    ofDigitsHalved halvings (ds.take half) * Nat.pow 10 (ds.length - half) +
      ofDigitsHalved halvings (ds.drop half)

/-- The number that a row of digits denotes.  Long rows are halved until short ones are left, so
that the work does not grow with the square of the length. -/
def ofDigits (ds : List Char) : Nat := ofDigitsHalved (ds.length.log2 - 6) ds

theorem foldl_digits (ds : List Char) (n : Nat) :
    ds.foldl (fun n c => 10 * n + (c.toNat - '0'.toNat)) n =
      n * Nat.pow 10 ds.length + ofDigitsEach ds := by
  induction ds generalizing n with
  | nil => simp [ofDigitsEach]
  | cons d ds ih =>
    simp only [ofDigitsEach, List.foldl_cons, List.length_cons] at ih ⊢
    rw [ih, ih (10 * 0 + _), Nat.mul_zero, Nat.zero_add, Nat.add_mul, Nat.add_assoc, Nat.pow_eq,
      Nat.pow_eq, Nat.pow_succ, Nat.mul_comm 10 n, Nat.mul_assoc n 10, Nat.mul_comm 10 (10 ^ _)]

theorem ofDigitsHalved_eq (halvings : Nat) (ds : List Char) :
    ofDigitsHalved halvings ds = ofDigitsEach ds := by
  induction halvings generalizing ds with
  | zero => rfl
  | succ halvings ih =>
    have h := foldl_digits (ds.drop (ds.length / 2)) (ofDigitsEach (ds.take (ds.length / 2)))
    rw [ofDigitsHalved, ih, ih, ← List.length_drop, ← h, ofDigitsEach, ofDigitsEach,
      ← List.foldl_append, List.take_append_drop]

theorem ofDigits_eq (ds : List Char) : ofDigits ds = ofDigitsEach ds := ofDigitsHalved_eq ..

/-- `10^p` above a fraction line, when `p` is not negative. -/
def above (p : Int) : Nat := Nat.pow 10 p.toNat

/-- `10^-p` below a fraction line, when `p` is negative. -/
def below (p : Int) : Nat := Nat.pow 10 (-p).toNat

/-- `± n · 10^p`, rounded once.  Numerals that are out of range by a wide margin are not
expanded. -/
def value (negative : Bool) (n : Nat) (p : Int) : Binary64 :=
  if n = 0 then .zero negative
  else if p > 400 then .infinite negative
  else if p + n.log2 < -400 then .zero negative
  else .round negative (n * above p) (below p)

/-! ### The shortest numeral -/

/-- `coefficient · 10^scale`. -/
structure Numeral where
  coefficient : Nat
  scale : Int
  deriving DecidableEq, Repr

/-- The least `p`, from `start` on and at most `tries` further, with `num / den < 10^p`. -/
def magnitude (num den : Nat) (start : Int) : Nat → Int
  | 0 => start
  | tries + 1 =>
    if num * below start < den * above start then start
    else magnitude num den (start + 1) tries

/-- A coefficient for `num / den` in units of `10^scale` that reads back as `x`: one of the two
neighbours, the nearer if both do, and of two equally near ones the even one. -/
def neighbour (x : Binary64) (num den : Nat) (scale : Int) : Option Nat :=
  let n := num * below scale
  let d := den * above scale
  let q := n / d
  let reads (c : Nat) : Bool := decide (value false c scale = x)
  match reads q, reads (q + 1) with
  | false, false => none
  | true, false => some q
  | false, true => some (q + 1)
  | true, true =>
    let twice := 2 * (n % d)
    if twice < d then some q
    else if d < twice then some (q + 1)
    else if q % 2 = 0 then some q else some (q + 1)

/-- The numeral for `num / den` below `10^p`, with at least `count` and at most `count + more`
digits. -/
def search (x : Binary64) (num den : Nat) (p : Int) (count : Nat) : Nat → Numeral
  | 0 => ⟨num * below (p - count) / (den * above (p - count)), p - count⟩
  | more + 1 =>
    match neighbour x num den (p - count) with
    | some c => if c = 10 then ⟨1, p - count + 1⟩ else ⟨c, p - count⟩
    | none => search x num den p (count + 1) more

/-- The least `p` with `m · 2^e < 10^p`. -/
def magnitudeOf (m : Nat) (e : Int) : Int :=
  magnitude (m <<< e.toNat) (Binary64.denominator e)
    (((m.log2 : Int) + e) * 30103 / 100000 - 1) 4

/-- The numeral of the positive number `m · 2^e`. -/
def shortest (m : Nat) (e : Int) (fits : Binary64.Fits m e) : Numeral :=
  search (.finite false m e fits) (m <<< e.toNat) (Binary64.denominator e) (magnitudeOf m e) 1 17

/-! ### Numerals of so many digits -/

/-- A numeral without zeros at its end, of which there are at most so many. -/
def Numeral.trim (n : Numeral) : Nat → Numeral
  | 0 => n
  | zeros + 1 =>
    if n.coefficient % 10 = 0 then trim ⟨n.coefficient / 10, n.scale + 1⟩ zeros else n

/-- The numeral of at most `count` digits that is nearest to the positive number `m · 2^e`, of two
equally near ones the greater. -/
def rounded (count : Nat) (m : Nat) (e : Int) : Numeral :=
  let scale := magnitudeOf m e - count
  let n := (m <<< e.toNat) * below scale
  let d := Binary64.denominator e * above scale
  Numeral.trim ⟨(2 * n + d) / (2 * d), scale⟩ count

/-! ### Layout -/

/-- How digits are laid out as a numeral. -/
structure Layout where
  /-- The least and the first too great power of ten of the leading digit for which the point is
  written in place. -/
  placedFrom : Int
  placedBelow : Int
  /-- The least number of digits of an exponent. -/
  exponentWidth : Nat
  /-- Whether a single digit before a power of ten has a point and a zero after it. -/
  pointed : Bool
  notANumber : String
  infinity : String

/-- Numbers in running text and in programs. -/
def Layout.plain : Layout := ⟨-4, 16, 2, false, "nan", "inf"⟩

/-- Numbers in stored documents. -/
def Layout.stored : Layout := { Layout.plain with notANumber := "NaN", infinity := "Infinity" }

/-- Digits with the point after the first `point` of them; a number that is whole keeps one place
after the point. -/
def placed (ds : List Char) (point : Int) : List Char :=
  if point ≤ 0 then '0' :: '.' :: (List.replicate (-point).toNat '0' ++ ds)
  else if ds.length ≤ point then
    ds ++ List.replicate (point.toNat - ds.length) '0' ++ ['.', '0']
  else ds.take point.toNat ++ '.' :: ds.drop point.toNat

/-- Digits with the point after the first and a power of ten. -/
def scientific (f : Layout) (ds : List Char) (power : Int) : List Char :=
  let head := match ds with
    | [] => []
    | [d] => if f.pointed then [d, '.', '0'] else [d]
    | d :: rest => d :: '.' :: rest
  let shown := digits power.natAbs
  head ++ 'e' :: (if power < 0 then '-' else '+') ::
    (List.replicate (f.exponentWidth - shown.length) '0' ++ shown)

/-- The text of a positive finite number. -/
def layOut (f : Layout) (n : Numeral) : List Char :=
  let ds := digits n.coefficient
  let point := n.scale + ds.length
  if f.placedFrom ≤ point - 1 ∧ point - 1 < f.placedBelow then placed ds point
  else scientific f ds (point - 1)

/-- The text of a number. -/
def text (f : Layout) : Binary64 → String
  | .nan _ => f.notANumber
  | .infinite s => if s then "-" ++ f.infinity else f.infinity
  | .finite s m e h =>
    let body := if m = 0 then ['0', '.', '0'] else layOut f (shortest m e h)
    String.ofList (if s then '-' :: body else body)

/-- The text of a number with at most `count` digits; that of zero has no sign. -/
def textWithin (f : Layout) (count : Nat) : Binary64 → String
  | .finite s m e _ =>
    if m = 0 then text f (.zero false)
    else
      let body := layOut f (rounded count m e)
      String.ofList (if s then '-' :: body else body)
  | x => text f x

/-! ### Reading

Numerals are read from texts that people type: blanks around them are skipped, the digits may be
of any script, and single underscores may stand between two digits. -/

/-- Blanks around a number; the separators of ASCII are not among them. -/
def isSkipped (c : Char) : Bool := Text.isBlank c && !Text.isSeparator c

/-- A digit of any script as the ASCII digit of its value. -/
def plainDigit (c : Char) : Char :=
  match Text.digit? c with
  | some d => Nat.digitChar d
  | none => c

/-- Whether each underscore stands between two digits; `previous` is the character before. -/
def underscoresFit (previous : Char) : List Char → Bool
  | [] => previous != '_'
  | c :: rest =>
    (if c = '_' then previous.isDigit else previous != '_' || c.isDigit) && underscoresFit c rest

/-- Removes the underscores, each of which has to stand between two digits. -/
def dropUnderscores (cs : List Char) : Option (List Char) :=
  if underscoresFit ' ' cs then some (cs.filter (· != '_')) else none

/-- The characters of a typed numeral in plain form. -/
def plainForm (s : String) : Option (List Char) :=
  dropUnderscores ((Text.trimBy isSkipped s.toList).map plainDigit)

/-- A sign, if there is one. -/
def splitSign : List Char → Bool × List Char
  | '-' :: rest => (true, rest)
  | '+' :: rest => (false, rest)
  | cs => (false, cs)

/-- The digits at the start, and the rest. -/
def splitDigits (cs : List Char) : List Char × List Char :=
  (cs.takeWhile Char.isDigit, cs.dropWhile Char.isDigit)

/-- The most digits of a whole number that is read.  How many are written is not limited. -/
def digitLimit : Nat := 4300

/-- A typed whole number. -/
def readInteger? (s : String) : Option Int := do
  let (negative, ds) := splitSign (← plainForm s)
  if ds.isEmpty || ds.any (!·.isDigit) || digitLimit < ds.length then none
  else
    let n : Int := ofDigits ds
    some (if negative then -n else n)

/-- The power of ten after the digits: nothing, or a mark, a sign and digits to the end. -/
def readPower? : List Char → Option Int
  | [] => some 0
  | c :: rest =>
    if c = 'e' ∨ c = 'E' then
      let (negative, ds) := splitSign rest
      if ds.isEmpty || ds.any (!·.isDigit) then none
      else
        let n : Int := ofDigits ds
        some (if negative then -n else n)
    else none

/-- The digits before and after the point, and the rest. -/
def splitPoint (cs : List Char) : List Char × List Char × List Char :=
  let (whole, rest) := splitDigits cs
  match rest with
  | '.' :: rest =>
    let (part, rest) := splitDigits rest
    (whole, part, rest)
  | _ => (whole, [], rest)

/-- A typed number. -/
def read? (s : String) : Option Binary64 := do
  let (negative, cs) := splitSign (← plainForm s)
  let word := String.ofList (cs.map Char.toLower)
  if word = "inf" ∨ word = "infinity" then some (.infinite negative)
  else if word = "nan" then some .notANumber
  else
    let (whole, part, rest) := splitPoint cs
    if whole.isEmpty && part.isEmpty then none
    else
      let power ← readPower? rest
      some (value negative (ofDigits (whole ++ part)) (power - part.length))

end Blockwork.Decimal
