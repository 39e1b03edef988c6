import Blockwork.Error

/-!
# Displays

Where the text of a program and the lines that it puts out are shown: kept in memory as they are
given, or written to a stream.
-/

namespace Blockwork

/-- A line put out by a program. -/
structure Line where
  text : Value
  colour : Value
  deriving DecidableEq

/-- The text of the newest program, and how often one was shown. -/
structure TextDisplay where
  text : Value := .text ""
  writes : Nat := 0

/-- The lines since the display was last cleared, and how often it was cleared. -/
structure OutputDisplay where
  lines : Array Line := #[]
  clears : Nat := 0

/-- Shows another text. -/
def TextDisplay.write (d : TextDisplay) (text : Value) : TextDisplay :=
  { text, writes := d.writes + 1 }

/-- Adds a line. -/
def OutputDisplay.append (d : OutputDisplay) (text colour : Value) : OutputDisplay :=
  { d with lines := d.lines.push ⟨text, colour⟩ }

/-- Removes all lines. -/
def OutputDisplay.clear (d : OutputDisplay) : OutputDisplay :=
  { lines := #[], clears := d.clears + 1 }

namespace Stream

/-- The text of a program on a stream: it ends with the end of a line. -/
def text : Value → Except Error String
  | .text s => .ok (if s.endsWith "\n" then s else s ++ "\n")
  | _ => .error (.failure .wrongShape)

/-- A line on a stream, with its colour before it. -/
def line (text colour : Value) : String :=
  "[" ++ colour.display ++ "] " ++ text.display ++ "\n"

/-- The mark on a stream that the display was cleared. -/
def rule : String := "".pushn '-' 40 ++ "\n"

end Stream

end Blockwork
