import Blockwork.Colour.Rgb
import Blockwork.Compile.Basic

/-!
# Stock rules

The rules for the blocks of the stock vocabulary, and the two definitions that they share.
-/

namespace Blockwork

namespace Compile

/-! ### Definitions -/

/-- Puts out a line: a text and its colour. -/
def addTextRun : List Value → Emit Value
  | [text, colour] => do
    modify (·.push ⟨.text text.display, .text colour.display⟩)
    return .null
  | _ => throw (.failure .wrongType)

/-- The lines that the definition of `addTextRun` is shown with. -/
def addTextLines : List String := [
  "def " ++ placeholder ++ "(text, color):",
  "    # Add text to the output area.",
  "    output.append(text, color)"]

/-- A number as a channel: the nearest whole number. -/
def channel (v : Value) : Except Error Int := do
  Number.nearest (.float (← v.toFloat))

/-- The colour with three numbers as channels. -/
def colourRgbRun : List Value → Emit Value
  | [r, g, b] => do
    let red ← emitted (channel r)
    let green ← emitted (channel g)
    let blue ← emitted (channel b)
    return .text (Rgb.ofInts red green blue).hex
  | _ => throw (.failure .wrongType)
where
  /-- A step that puts out nothing. -/
  emitted {α : Type} : Except Error α → Emit α
    | .ok a => pure a
    | .error e => throw e

/-- The lines that the definition of `colourRgbRun` is shown with. -/
def colourRgbLines : List String := [
  "def " ++ placeholder ++ "(r, g, b):",
  "    r, g, b = (max(0, min(255, int(round(c)))) for c in (r, g, b))",
  "    return '#%02x%02x%02x' % (r, g, b)"]

/-! ### Rules -/

def addText : Rule := fun s => do
  let text ← s.plug "TEXT" Precedence.none
  let colour ← s.plug "COLOR" Precedence.atomic
  let name ← define "add_text" (.ok addTextLines) addTextRun
  return .ops [.call (.text name) [text, colour]]

def wait : Rule := fun s => do
  require (.text "import asyncio")
  let seconds := s.field "SECONDS"
  return .ops [.sleep (.literal (if seconds = .null then .int 0 else seconds))]

def text : Rule := fun s => do
  let value := s.field "TEXT"
  return .value (.literal (.text (if value.isTruthy then value.display else "")))
    Precedence.atomic

def textJoin : Rule := fun s => do
  let left ← s.plug "A" Precedence.additive
  let right ← s.plug "B" Precedence.additive
  return .value (.concat left right) Precedence.additive

def colourPicker : Rule := fun s => do
  return .value (.literal (s.field "COLOUR")) Precedence.atomic

def colourRgb : Rule := fun s => do
  let red ← s.plug "RED" Precedence.none
  let green ← s.plug "GREEN" Precedence.none
  let blue ← s.plug "BLUE" Precedence.none
  let name ← define "colour_rgb" (.ok colourRgbLines) colourRgbRun
  return .value (.call (.text name) [red, green, blue]) Precedence.functionCall

def mathNumber : Rule := fun s => do
  let field := s.field "NUM"
  let value := if field.isTruthy then field else .int 0
  let n ← ofExcept value.toNumber
  return .value (.literal value)
    (if (Number.int 0).le n then Precedence.atomic else Precedence.unarySign)

/-- The rules for the stock vocabulary. -/
def stockRules : List (Key × Rule) := [
  ("add_text", addText), ("wait", wait), ("text", text), ("text_join", textJoin),
  ("colour_picker", colourPicker), ("colour_rgb", colourRgb), ("math_number", mathNumber)]

end Compile

/-- The compiler for the stock vocabulary. -/
def Compiler.stock : Compiler := { rules := Compile.stockRules }

end Blockwork
