/-!
# Blank characters

The characters that are trimmed from the ends of a text: the white space of Unicode together with
the four information separators of ASCII.  Around a number the separators are not skipped.
-/

namespace Blockwork.Text

/-- The four ASCII characters that separate files, groups, records and units. -/
def isSeparator (c : Char) : Bool := 0x1c ≤ c.val && c.val ≤ 0x1f

/-- A character that is trimmed. -/
def isBlank (c : Char) : Bool :=
  (0x09 ≤ c.val && c.val ≤ 0x0d) || isSeparator c || c.val == 0x20 || c.val == 0x85 ||
  c.val == 0xa0 || c.val == 0x1680 || (0x2000 ≤ c.val && c.val ≤ 0x200a) ||
  c.val == 0x2028 || c.val == 0x2029 || c.val == 0x202f || c.val == 0x205f || c.val == 0x3000

/-- The list without the characters at its two ends that `p` holds of. -/
def trimBy (p : Char → Bool) (cs : List Char) : List Char :=
  ((cs.dropWhile p).reverse.dropWhile p).reverse

/-- The text without blanks at its ends. -/
def trim (s : String) : String := String.ofList (trimBy isBlank s.toList)

end Blockwork.Text
