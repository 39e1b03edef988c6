import Blockwork.Number

/-!
# Colours

A colour is three channels from 0 to 255.  It is written as a number sign and six hexadecimal
digits in lower case (`Rgb.hex`); it is read with blanks around it, with or without the number
sign, in either case (`Rgb.ofHex?`).
-/

namespace Blockwork

/-- A colour by its channels. -/
structure Rgb where
  red : Fin 256
  green : Fin 256
  blue : Fin 256
  deriving DecidableEq, Repr

namespace Rgb

/-- The nearest value a channel can have. -/
def clamp (i : Int) : Fin 256 :=
  ⟨min 255 i.toNat, by omega⟩

/-- The colour whose channels are nearest to the given numbers. -/
def ofInts (r g b : Int) : Rgb := ⟨clamp r, clamp g, clamp b⟩

/-- The two digits of a channel. -/
def hexDigits (c : Fin 256) : List Char := [Nat.digitChar (c / 16), Nat.digitChar (c % 16)]

/-- The written form, as a list of characters. -/
def hexChars (c : Rgb) : List Char :=
  '#' :: (hexDigits c.red ++ hexDigits c.green ++ hexDigits c.blue)

/-- The written form. -/
def hex (c : Rgb) : String := String.ofList c.hexChars

/-- The value of a hexadecimal digit of either case. -/
def digit? (c : Char) : Option (Fin 16) :=
  if h : '0' ≤ c ∧ c ≤ '9' then some ⟨c.toNat - '0'.toNat, by
    have h₁ : 48 ≤ c.toNat := h.1
    have h₂ : c.toNat ≤ 57 := h.2
    have : '0'.toNat = 48 := rfl
    omega⟩
  else if h : 'a' ≤ c ∧ c ≤ 'f' then some ⟨c.toNat - 'a'.toNat + 10, by
    have h₁ : 97 ≤ c.toNat := h.1
    have h₂ : c.toNat ≤ 102 := h.2
    have : 'a'.toNat = 97 := rfl
    omega⟩
  else if h : 'A' ≤ c ∧ c ≤ 'F' then some ⟨c.toNat - 'A'.toNat + 10, by
    have h₁ : 65 ≤ c.toNat := h.1
    have h₂ : c.toNat ≤ 70 := h.2
    have : 'A'.toNat = 65 := rfl
    omega⟩
  else none

/-- The channel that two digits denote. -/
def channel? (a b : Char) : Option (Fin 256) := do
  let x ← digit? a
  let y ← digit? b
  some ⟨16 * x + y, by omega⟩

/-- The colour that six digits denote. -/
def ofDigits? : List Char → Option Rgb
  | [a, b, c, d, e, f] => do some ⟨← channel? a b, ← channel? c d, ← channel? e f⟩
  | _ => none

/-- The colour that a list of characters denotes, with or without the number sign. -/
def ofChars? : List Char → Option Rgb
  | '#' :: cs => ofDigits? cs
  | cs => ofDigits? cs

/-- The colour that a text denotes. -/
def ofHex? (s : String) : Option Rgb := ofChars? (Text.trimBy Text.isBlank s.toList)

/-- The colour that a value denotes; only a text can. -/
def ofValue? : Value → Option Rgb
  | .text s => ofHex? s
  | _ => none

/-- The colour that a value has to denote. -/
def ofValue (v : Value) : Except Error Rgb :=
  match ofValue? v with
  | some c => .ok c
  | none => .error (.notHex v)

/-- The colour with three values as channels. -/
def ofChannels (r g b : Value) : Except Error Rgb := do
  return ofInts (← r.toInteger) (← g.toInteger) (← b.toInteger)

end Rgb

end Blockwork
