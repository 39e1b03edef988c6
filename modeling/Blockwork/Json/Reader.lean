import Blockwork.Entries
import Blockwork.Colour.Rgb
import Blockwork.Json.Writer

/-!
# Reading documents

JSON text as values.  Besides the grammar of JSON, `NaN`, `Infinity` and `-Infinity` are numbers.  A
number without point and power is whole.  Of equal keys the last value counts, in the place of the
first.  Values that nest too deeply are refused as soon as they are entered.
-/

namespace Blockwork.Json

/-- What reading from a list of characters gives: a value and the rest. -/
abbrev Reading (α : Type) := Except Failure (α × List Char)

/-- The list without the blanks at its start. -/
def skip (cs : List Char) : List Char :=
  cs.dropWhile fun c => c = ' ' || c = '\t' || c = '\n' || c = '\r'

/-! ### Texts -/

/-- Four hexadecimal digits as a sixteen-bit unit. -/
def unit? : List Char → Option (Nat × List Char)
  | a :: b :: c :: d :: rest => do
    let a ← Rgb.digit? a
    let b ← Rgb.digit? b
    let c ← Rgb.digit? c
    let d ← Rgb.digit? d
    some (((16 * a + b) * 16 + c) * 16 + d, rest)
  | _ => none

/-- The character that two sixteen-bit units make together. -/
def joined (high low : Nat) : Char :=
  Char.ofNat (0x10000 + (high - 0xd800) * 0x400 + (low - 0xdc00))

/-- A character by number, after the mark: one unit, or two that belong together.  Texts hold
characters only, so a unit that stands alone and is none is replaced by U+FFFD: texts that differ in
such units only are one text here. -/
def numberedChar (cs : List Char) : Option (Char × List Char) := do
  let (n, rest) ← unit? cs
  if 0xd800 ≤ n ∧ n < 0xdc00 then
    match rest with
    | '\\' :: 'u' :: more =>
      match unit? more with
      | some (m, rest') =>
        if 0xdc00 ≤ m ∧ m < 0xe000 then some (joined n m, rest') else some ('\ufffd', rest)
      | none => some ('\ufffd', rest)
    | _ => some ('\ufffd', rest)
  else if 0xdc00 ≤ n ∧ n < 0xe000 then some ('\ufffd', rest)
  else some (Char.ofNat n, rest)

/-- The character that a letter after a backslash stands for. -/
def shortEscape? : Char → Option Char
  | '"' => some '"'
  | '\\' => some '\\'
  | '/' => some '/'
  | 'b' => some '\x08'
  | 'f' => some '\x0c'
  | 'n' => some '\n'
  | 'r' => some '\r'
  | 't' => some '\t'
  | _ => none

/-- The characters up to the closing quotation mark, at most as many as the first number says;
`acc` holds those read, the last first. -/
def stringBody : Nat → List Char → List Char → Reading String
  | 0, _, _ | _, _, [] => .error .malformedJson
  | n + 1, acc, c :: rest =>
    if c = '"' then .ok (String.ofList acc.reverse, rest)
    else if c = '\\' then
      match rest with
      | [] => .error .malformedJson
      | 'u' :: more =>
        match numberedChar more with
        | some (d, rest) => stringBody n (d :: acc) rest
        | none => .error .malformedJson
      | e :: rest =>
        match shortEscape? e with
        | some d => stringBody n (d :: acc) rest
        | none => .error .malformedJson
    else if c < ' ' then .error .malformedJson
    else stringBody n (c :: acc) rest

/-! ### Numbers -/

/-- A point and at least one digit, if they are there: the digits. -/
def fraction (cs : List Char) : List Char × List Char :=
  match cs with
  | '.' :: rest =>
    match Decimal.splitDigits rest with
    | ([], _) => ([], cs)
    | (ds, rest) => (ds, rest)
  | _ => ([], cs)

/-- A power of ten with at least one digit, if it is there. -/
def power (cs : List Char) : Option Int × List Char :=
  match cs with
  | c :: rest =>
    if c = 'e' ∨ c = 'E' then
      let (negative, rest) := Decimal.splitSign rest
      match Decimal.splitDigits rest with
      | ([], _) => (none, cs)
      | (ds, rest) =>
        let n : Int := Decimal.ofDigits ds
        (some (if negative then -n else n), rest)
    else (none, cs)
  | [] => (none, cs)

/-- The digits before the point: a zero alone, or digits of which the first is no zero. -/
def wholePart : List Char → List Char × List Char
  | '0' :: rest => (['0'], rest)
  | cs => Decimal.splitDigits cs

/-- A number without its sign. -/
def number (negative : Bool) (cs : List Char) : Reading Value :=
  match wholePart cs with
  | ([], _) => .error .malformedJson
  | (whole, rest) =>
    let (part, rest) := fraction rest
    let (exponent, rest) := power rest
    if part.isEmpty && exponent.isNone then
      if Decimal.digitLimit < whole.length then .error .badValue
      else
        let n : Int := Decimal.ofDigits whole
        .ok (.int (if negative then -n else n), rest)
    else
      let x := Decimal.value negative (Decimal.ofDigits (whole ++ part))
        (exponent.getD 0 - part.length)
      .ok (.float x, rest)

/-- The `nan` of documents, which is one and the same wherever it is read. -/
def storedNaN : Binary64 := .nan 1

/-- The words that are values. -/
def words : List (List Char × Value) :=
  [("null".toList, .null), ("true".toList, .bool true), ("false".toList, .bool false),
   ("NaN".toList, .float storedNaN), ("Infinity".toList, .float (.infinite false)),
   ("-Infinity".toList, .float (.infinite true))]

/-- A word or a number. -/
def plain (cs : List Char) : Reading Value :=
  match words.findSome? fun (w, v) => (w.isPrefixOf? cs).map (v, ·) with
  | some r => .ok r
  | none =>
    match cs with
    | '-' :: rest => number true rest
    | cs => number false cs

/-! ### Values

The first number of each of the following is more than the characters that are left, and every
call takes one at least. -/

/-- The entries with one more: in the place of an equal key, or at the end. -/
def putEntry (es : List (Key × Value)) (k : String) (v : Value) : List (Key × Value) :=
  Entries.put es (.text k) v

mutual

/-- A value at the start; `depth` more levels may be entered. -/
def value : Nat → Nat → List Char → Reading Value
  | 0, _, _ => .error .malformedJson
  | n + 1, depth, cs =>
    match cs with
    | '"' :: rest => (stringBody n [] rest).map fun (s, rest) => (.text s, rest)
    | '[' :: rest =>
      match depth with
      | 0 => .error .tooDeep
      | depth + 1 =>
        match skip rest with
        | ']' :: rest => .ok (.list [], rest)
        | rest => items n depth [] rest
    | '\x7b' :: rest =>
      match depth with
      | 0 => .error .tooDeep
      | depth + 1 =>
        match skip rest with
        | '\x7d' :: rest => .ok (.dict [], rest)
        | rest => members n depth [] rest
    | cs => plain cs

/-- The items of a list from one on, to its end; `acc` holds those before, the last first. -/
def items : Nat → Nat → List Value → List Char → Reading Value
  | 0, _, _, _ => .error .malformedJson
  | n + 1, depth, acc, cs =>
    match value n depth cs with
    | .error e => .error e
    | .ok (v, rest) =>
      match skip rest with
      | ']' :: rest => .ok (.list (v :: acc).reverse, rest)
      | ',' :: rest => items n depth (v :: acc) (skip rest)
      | _ => .error .malformedJson

/-- The entries of a dictionary from one on, to its end. -/
def members : Nat → Nat → List (Key × Value) → List Char → Reading Value
  | 0, _, _, _ => .error .malformedJson
  | n + 1, depth, acc, cs =>
    match cs with
    | '"' :: rest =>
      match stringBody n [] rest with
      | .error e => .error e
      | .ok (k, rest) =>
        match skip rest with
        | ':' :: rest =>
          match value n depth (skip rest) with
          | .error e => .error e
          | .ok (v, rest) =>
            match skip rest with
            | '\x7d' :: rest => .ok (.dict (putEntry acc k v), rest)
            | ',' :: rest => members n depth (putEntry acc k v) (skip rest)
            | _ => .error .malformedJson
        | _ => .error .malformedJson
    | _ => .error .malformedJson

end

/-- The value of a document. -/
def readChars (cs : List Char) : Except Failure Value :=
  match value (cs.length + 1) depthLimit (skip cs) with
  | .error e => .error e
  | .ok (v, rest) => if (skip rest).isEmpty then .ok v else .error .malformedJson

/-- The value of a document. -/
def read (s : String) : Except Error Value :=
  match readChars s.toList with
  | .ok v => .ok v
  | .error f => .error (.failure f)

end Blockwork.Json
