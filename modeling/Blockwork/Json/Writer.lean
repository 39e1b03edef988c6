import Blockwork.Error

/-!
# Writing documents

Values as JSON text, in ASCII: on one line, or with one item a line and two blanks of indentation a
level.  Values that nest too deeply are refused.
-/

namespace Blockwork.Json

/-- How deeply the lists and dictionaries of a document may nest. -/
def depthLimit : Nat := 980

/-- A sixteen-bit unit by number. -/
def escapedUnit (n : Nat) : List Char := '\\' :: 'u' :: Text.hex 4 n

/-- A character inside a text: itself, a short escape, or its sixteen-bit units by number. -/
def escapedChar (c : Char) : List Char :=
  if c = '"' ∨ c = '\\' then ['\\', c]
  else if c = '\n' then ['\\', 'n']
  else if c = '\r' then ['\\', 'r']
  else if c = '\t' then ['\\', 't']
  else if c = '\x08' then ['\\', 'b']
  else if c = '\x0c' then ['\\', 'f']
  else if ' ' ≤ c ∧ c ≤ '~' then [c]
  else if c.toNat < 0x10000 then escapedUnit c.toNat
  else
    let n := c.toNat - 0x10000
    escapedUnit (0xd800 + n / 0x400) ++ escapedUnit (0xdc00 + n % 0x400)

/-- A text between quotation marks. -/
def string (s : String) : String :=
  String.ofList ('"' :: (s.toList.flatMap escapedChar ++ ['"']))

/-- A key as the text it is written as. -/
def keyText : Key → String
  | .null => "null"
  | .text s => s
  | .int i => Decimal.integer i
  | .float x => Decimal.text .stored x
  | .bool b => if b then "true" else "false"

/-- A scalar. -/
def scalar : Value → String
  | .null => "null"
  | .bool b => if b then "true" else "false"
  | .int i => Decimal.integer i
  | .float x => Decimal.text .stored x
  | .text s => string s
  | _ => ""

mutual

/-- A value on one line. -/
def compact : Value → String
  | .list xs => "[" ++ ", ".intercalate (compactItems xs) ++ "]"
  | .dict es => "\x7b" ++ ", ".intercalate (compactEntries es) ++ "\x7d"
  | v => scalar v

/-- The items of a list on one line. -/
def compactItems : List Value → List String
  | [] => []
  | v :: vs => compact v :: compactItems vs

/-- The entries of a dictionary on one line. -/
def compactEntries : List (Key × Value) → List String
  | [] => []
  | (k, v) :: es => (string (keyText k) ++ ": " ++ compact v) :: compactEntries es

end

/-- The start of a line at a level. -/
def newline (level : Nat) : String := "\n" ++ "".pushn ' ' (2 * level)

/-- Parts on lines of their own between two brackets, and the brackets alone when there are none. -/
def block (opening closing : String) (level : Nat) (parts : List String) : String :=
  if parts.isEmpty then opening ++ closing
  else
    opening ++ newline (level + 1) ++ ("," ++ newline (level + 1)).intercalate parts ++
      newline level ++ closing

mutual

/-- A value over several lines, from a level on. -/
def indented (level : Nat) : Value → String
  | .list xs => block "[" "]" level (indentedItems (level + 1) xs)
  | .dict es => block "\x7b" "\x7d" level (indentedEntries (level + 1) es)
  | v => scalar v

/-- The items of a list, each from its line on. -/
def indentedItems (level : Nat) : List Value → List String
  | [] => []
  | v :: vs => indented level v :: indentedItems level vs

/-- The entries of a dictionary, each from its line on. -/
def indentedEntries (level : Nat) : List (Key × Value) → List String
  | [] => []
  | (k, v) :: es =>
    (string (keyText k) ++ ": " ++ indented level v) :: indentedEntries level es

end

/-- A document by one of the two layouts. -/
def write (layout : Value → String) (v : Value) : Except Error String :=
  if depthLimit < v.depth then .error (.failure .tooDeep) else .ok (layout v)

/-- A document on one line. -/
def line (v : Value) : Except Error String := write compact v

/-- A document over several lines. -/
def lines (v : Value) : Except Error String := write (indented 0) v

end Blockwork.Json
