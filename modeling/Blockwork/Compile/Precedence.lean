import Blockwork.Number

/-!
# Precedence

How tightly an expression holds together: the lower the number, the tighter.  Tags with the same
whole part are in one class.  An operand is grouped when it is not tighter than its place asks for,
up to a few pairs that need no grouping although they are in one class.  Any value may stand for a
tag; only when two are compared do they have to be numbers.
-/

namespace Blockwork.Precedence

/-- A number with one place after the point. -/
def tenths (n : Nat) : Value := .float (Decimal.value false n (-1))

def atomic : Value := .int 0
def member : Value := tenths 21
def functionCall : Value := tenths 22
def unarySign : Value := .int 4
def additive : Value := .int 6
def logicalNot : Value := .int 12
def logicalAnd : Value := .int 13
def logicalOr : Value := .int 14
def none : Value := .int 99

/-- The tags by name. -/
def named : List (String × Value) := [
  ("ATOMIC", atomic), ("COLLECTION", .int 1), ("STRING_CONVERSION", .int 1), ("MEMBER", member),
  ("FUNCTION_CALL", functionCall), ("EXPONENTIATION", .int 3), ("UNARY_SIGN", unarySign),
  ("BITWISE_NOT", .int 4), ("MULTIPLICATIVE", .int 5), ("ADDITIVE", additive),
  ("BITWISE_SHIFT", .int 7), ("BITWISE_AND", .int 8), ("BITWISE_XOR", .int 9),
  ("BITWISE_OR", .int 10), ("RELATIONAL", .int 11), ("LOGICAL_NOT", logicalNot),
  ("LOGICAL_AND", logicalAnd), ("LOGICAL_OR", logicalOr), ("CONDITIONAL", .int 15),
  ("LAMBDA", .int 16), ("NONE", none)]

/-- The pairs of a place and an operand that need no grouping although they are in one class. -/
def exempt : List (Value × Value) := [
  (functionCall, member), (functionCall, functionCall), (member, member), (member, functionCall),
  (logicalNot, logicalNot), (logicalAnd, logicalAnd), (logicalOr, logicalOr)]

/-- Whether an operand with the tag `inner` is grouped in a place with the tag `outer`. -/
def needsGroup (outer inner : Value) : Except Error Bool := do
  let o ← (← outer.toNumber).floor
  let i ← (← inner.toNumber).floor
  if o > i then return false
  if o = i && (o = 0 || o = 99) then return false
  return !exempt.any fun (p, q) => p.same outer && q.same inner

end Blockwork.Precedence
