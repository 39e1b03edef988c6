import Blockwork.Error

/-!
# Numbers

Whole numbers without bound together with double-precision numbers.  Between whole numbers the
arithmetic is exact; as soon as one operand is a double-precision number the other one is rounded
to that format first, which fails when it is out of range.
-/

namespace Blockwork

/-- A whole number or a double-precision number. -/
inductive Number where
  | int (i : Int)
  | float (x : Binary64)
  deriving DecidableEq

namespace Number

/-- The number as a value. -/
def toValue : Number → Value
  | .int i => .int i
  | .float x => .float x

/-- The whole number nearest in the format of the other operand. -/
def ofInt (i : Int) : Except Error Binary64 :=
  match Binary64.ofInt? i with
  | some x => .ok x
  | none => .error (.failure .overflow)

/-- The number in double precision. -/
def toFloat : Number → Except Error Binary64
  | .int i => ofInt i
  | .float x => .ok x

/-- An operation that is exact on whole numbers and rounded otherwise. -/
def lift (exact : Int → Int → Int) (rounded : Binary64 → Binary64 → Binary64) :
    Number → Number → Except Error Number
  | .int i, .int j => .ok (.int (exact i j))
  | a, b => do return .float (rounded (← a.toFloat) (← b.toFloat))

def add : Number → Number → Except Error Number := lift (· + ·) Binary64.add
def sub : Number → Number → Except Error Number := lift (· - ·) Binary64.sub
def mul : Number → Number → Except Error Number := lift (· * ·) Binary64.mul

/-- The quotient, always in double precision; that of two whole numbers is rounded once. -/
def div : Number → Number → Except Error Binary64
  | .int i, .int j =>
    match Binary64.ofFraction (decide (j < 0)) (if j < 0 then -i else i) j.natAbs with
    | .infinite _ => .error (.failure .overflow)
    | x => .ok x
  | a, b => do return (← a.toFloat).div (← b.toFloat)

/-- The order of two numbers by value, where they have one. -/
def compare? : Number → Number → Option Ordering
  | .int i, .int j => some (compare i j)
  | .float x, .float y => x.compare? y
  | .int i, .float y => intFloat i y
  | .float x, .int j => (intFloat j x).map Ordering.swap
where
  /-- The order of a whole number and a double-precision number, without rounding either. -/
  intFloat (i : Int) : Binary64 → Option Ordering
    | .nan _ => none
    | .infinite s => some (if s then .gt else .lt)
    | .finite s m e _ =>
      some (compare (i * Binary64.denominator e) (Binary64.numerator s m e))

def lt (a b : Number) : Bool := a.compare? b == some .lt

def le (a b : Number) : Bool := a.lt b || a.compare? b == some .eq

/-- Equality by value. -/
def same (a b : Number) : Bool := a.compare? b == some .eq

/-- The greater of two; the first, unless the second is greater. -/
def max (a b : Number) : Number := if a.lt b then b else a

/-- The lesser of two; the first, unless the second is less. -/
def min (a b : Number) : Number := if b.lt a then b else a

/-- A whole number taken from a finite number. -/
def wholeBy (part : Binary64 → Option Int) : Number → Except Error Int
  | .int i => .ok i
  | .float x =>
    match part x, x with
    | some i, _ => .ok i
    | none, .nan _ => .error (.failure .badValue)
    | none, _ => .error (.failure .overflow)

/-- The greatest whole number that is not above. -/
def floor : Number → Except Error Int := wholeBy Binary64.floor?

/-- The whole part, toward zero. -/
def truncate : Number → Except Error Int := wholeBy Binary64.truncate?

/-- The nearest whole number, of two equally near ones the even one. -/
def nearest : Number → Except Error Int := wholeBy Binary64.nearest?

end Number

namespace Value

/-- The number that a value is; truth values count as one and zero. -/
def number? : Value → Option Number
  | .bool b => some (.int b.toNat)
  | .int i => some (.int i)
  | .float x => some (.float x)
  | _ => none

/-- The number that a value is, where nothing else will do. -/
def toNumber (v : Value) : Except Error Number :=
  match v.number? with
  | some n => .ok n
  | none => .error (.failure .wrongType)

/-- A value as a double-precision number: a number, or a text that reads as one. -/
def toFloat : Value → Except Error Binary64
  | .text s =>
    match Decimal.read? s with
    | some x => .ok x
    | none => .error (.failure .badValue)
  | v => do (← v.toNumber).toFloat

/-- A value as a whole number: the whole part of a number, or a text that reads as one. -/
def toInteger : Value → Except Error Int
  | .text s =>
    match Decimal.readInteger? s with
    | some i => .ok i
    | none => .error (.failure .badValue)
  | v => do (← v.toNumber).truncate

end Value

end Blockwork
