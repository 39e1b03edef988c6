import Blockwork.Colour.Hsv

/-!
# Shades

How the colour of a block is lightened while the block runs: every channel is raised by the same
amount, or the hue is kept and painted paler and brighter.
-/

namespace Blockwork

/-- A way to lighten colours. -/
inductive Policy where
  | rgb
  | hsv
  deriving DecidableEq, Repr

namespace Policy

/-- The name of a policy. -/
def name : Policy → String
  | .rgb => "rgb"
  | .hsv => "hsv"

/-- The policy with a name. -/
def ofName? : String → Option Policy
  | "rgb" => some .rgb
  | "hsv" => some .hsv
  | _ => none

/-- The policy that a value names; only a text can. -/
def ofValue? : Value → Option Policy
  | .text s => ofName? s
  | _ => none

end Policy

/-- A policy with the amount by which it raises channels. -/
structure Shade where
  policy : Policy
  delta : Value

namespace Shade

/-- The amount by which channels are raised unless another one is given. -/
def defaultDelta : Value := .int 55

/-- The shade with a policy by name. -/
def ofName (name delta : Value) : Except Error Shade :=
  match Policy.ofValue? name with
  | some p => .ok ⟨p, delta⟩
  | none => .error (.misconfiguration (.unknownPolicy name false))

/-- A channel raised by `delta`, at most to 255. -/
def raise (delta : Value) (c : Fin 256) : Except Error Number := do
  return Number.min (← Number.add (.int c) (← delta.toNumber)) (.int 255)

/-- Every channel raised by `delta`. -/
def raiseAll (delta : Value) (c : Rgb) : Except Error Rgb := do
  let r ← raise delta c.red
  let g ← raise delta c.green
  let b ← raise delta c.blue
  return .ofInts (← r.truncate) (← g.truncate) (← b.truncate)

/-- The hue of a colour, paler and brighter. -/
def brighten (c : Rgb) : Except Error Rgb :=
  Rgb.ofHsv (.float c.hue) (.float (Decimal.value false 5 (-1))) (.int 230)

/-- A colour lightened. -/
def lighten (s : Shade) (c : Rgb) : Except Error Rgb :=
  match s.policy with
  | .rgb => raiseAll s.delta c
  | .hsv => brighten c

/-- A written colour lightened. -/
def lightenText (s : Shade) (colour : Value) : Except Error String := do
  return (← s.lighten (← Rgb.ofValue colour)).hex

end Shade

end Blockwork
