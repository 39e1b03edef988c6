import Blockwork.Text.Printable

/-!
# Quoted text

How a text is written as a literal: between apostrophes, or between quotation marks when it holds
an apostrophe and no quotation mark.  The mark in use and the backslash are escaped, characters
that are not printable are written by number, all else as itself.
-/

namespace Blockwork.Text

/-- The last `width` digits of `n` to base sixteen, in lower case. -/
def hex (width n : Nat) : List Char :=
  match width with
  | 0 => []
  | width + 1 => hex width (n / 16) ++ [Nat.digitChar (n % 16)]

/-- A character by number: two, four or eight digits, as few as do. -/
def numbered (c : Char) : List Char :=
  if c.toNat < 0x100 then '\\' :: 'x' :: hex 2 c.toNat
  else if c.toNat < 0x10000 then '\\' :: 'u' :: hex 4 c.toNat
  else '\\' :: 'U' :: hex 8 c.toNat

/-- One character between the marks `mark`. -/
def escape (mark c : Char) : List Char :=
  if c = mark ∨ c = '\\' then ['\\', c]
  else if c = '\n' then ['\\', 'n']
  else if c = '\r' then ['\\', 'r']
  else if c = '\t' then ['\\', 't']
  else if isPrintable c then [c]
  else numbered c

/-- The mark a text is written between. -/
def markFor (cs : List Char) : Char :=
  if cs.contains '\'' && !cs.contains '"' then '"' else '\''

/-- The literal of a list of characters. -/
def quotedChars (cs : List Char) : List Char :=
  markFor cs :: (cs.flatMap (escape (markFor cs)) ++ [markFor cs])

/-- The literal of a text. -/
def quoted (s : String) : String := String.ofList (quotedChars s.toList)

end Blockwork.Text
