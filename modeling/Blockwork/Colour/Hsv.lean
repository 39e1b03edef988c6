import Blockwork.Colour.Rgb

/-!
# Hue, saturation, value

Colours by hue in degrees, saturation from 0 to 1 and value from 0 to 255.  The channels are
rounded down, so that the same hue always gives the same colour.
-/

namespace Blockwork.Rgb

/-- The saturation a hue is painted with. -/
def hueSaturation : Value := .float (Decimal.value false 45 (-2))

/-- The value a hue is painted with. -/
def hueValue : Value :=
  .float ((Decimal.value false 65 (-2)).mul (Decimal.value false 255 0))

/-- `v · (1 - s)`, rounded down. -/
def dimmed (v s : Number) : Except Error Int := do
  (← v.mul (← Number.sub (.int 1) s)).floor

/-- The greatest number of times that something can be repeated. -/
def repeatLimit : Int := 0x7fffffffffffffff

/-- How many items there can be in memory. -/
def roomLimit : Int := 0x10000000000

/-- Why something of so many items cannot take the place of a number: it has to be repeated first,
and if that works it is still no number. -/
def repetition (items : Nat) (isText : Bool) (times : Int) : Failure :=
  let total := items * times
  if times < -repeatLimit - 1 || repeatLimit < times then .overflow
  else if isText && repeatLimit < total then .overflow
  else if roomLimit < total then .outOfMemory
  else .wrongType

/-- The number that is to be dimmed by `1 - s`.  A text or a list is repeated as often as that
says, if it is a whole number. -/
def dimmable (v : Value) (s : Number) : Except Error Number := do
  match v, ← Number.sub (.int 1) s with
  | .text t, .int times => throw (.failure (repetition t.length true times))
  | .list xs, .int times => throw (.failure (repetition xs.length false times))
  | v, _ => v.toNumber

/-- The colour with hue `h`, saturation `s` and value `v`.  A grey has no hue to look at, and the
sector of the hue comes before the other two. -/
def ofHsv (h s v : Value) : Except Error Rgb := do
  if s.same (.int 0) then
    let grey ← (← v.toNumber).floor
    return ofInts grey grey grey
  else
    let turns ← (← h.toNumber).div (.int 60)
    let sector ← Number.floor (.float turns)
    let s ← s.toNumber
    let v ← dimmable v s
    let part ← Number.sub (.float turns) (.int sector)
    let p ← dimmed v s
    let q ← dimmed v (← s.mul part)
    let t ← dimmed v (← s.mul (← Number.sub (.int 1) part))
    let top ← v.floor
    return match sector with
      | 1 => ofInts q top p
      | 2 => ofInts p top t
      | 3 => ofInts p q top
      | 4 => ofInts t p top
      | 5 => ofInts top p q
      | _ => ofInts top t p

/-- The colour a block with a hue is painted in. -/
def ofHue (h : Value) : Except Error Rgb := ofHsv h hueSaturation hueValue

/-- The ratio of a channel to the greatest value of a channel. -/
def ratio (c : Fin 256) : Binary64 := .round false c 255

/-- A small whole number in double precision. -/
def whole (n : Nat) : Binary64 := .round false n 1

/-- The greater of two numbers; the first, unless the second is greater. -/
def greater (x y : Binary64) : Binary64 := if x.lt y then y else x

/-- The lesser of two numbers; the first, unless the second is less. -/
def lesser (x y : Binary64) : Binary64 := if y.lt x then y else x

/-- The hue of a colour in degrees; a grey has the hue 0. -/
def hue (c : Rgb) : Binary64 :=
  let r := ratio c.red
  let g := ratio c.green
  let b := ratio c.blue
  let high := greater (greater r g) b
  let low := lesser (lesser r g) b
  let turn :=
    if low.same high then .zero false
    else
      let range := high.sub low
      let rc := (high.sub r).div range
      let gc := (high.sub g).div range
      let bc := (high.sub b).div range
      let sextants :=
        if r.same high then bc.sub gc
        else if g.same high then ((whole 2).add rc).sub bc
        else ((whole 4).add gc).sub rc
      (sextants.div (whole 6)).modulo (whole 1)
  turn.mul (whole 360)

end Blockwork.Rgb
