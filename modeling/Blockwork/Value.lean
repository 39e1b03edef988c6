import Blockwork.Entries
import Blockwork.Key

/-!
# Values

The data that fields, options and stored documents hold: `null`, scalars, lists, and dictionaries
that keep the order in which their keys came.  Whole numbers and double-precision numbers are kept
apart, also when they are equal.
-/

namespace Blockwork

/-- A dynamic value. -/
inductive Value where
  | null
  | bool (b : Bool)
  | int (i : Int)
  | float (x : Binary64)
  | text (s : String)
  | list (items : List Value)
  | dict (entries : List (Key × Value))

namespace Value

/-! ### Structural equality -/

mutual

/-- Whether two values are built alike. -/
def beq : Value → Value → Bool
  | .null, .null => true
  | .bool a, .bool b => a == b
  | .int a, .int b => a == b
  | .float a, .float b => decide (a = b)
  | .text a, .text b => a == b
  | .list xs, .list ys => beqItems xs ys
  | .dict xs, .dict ys => beqEntries xs ys
  | _, _ => false

/-- `beq` along two lists. -/
def beqItems : List Value → List Value → Bool
  | [], [] => true
  | x :: xs, y :: ys => x.beq y && beqItems xs ys
  | _, _ => false

/-- `beq` along the entries of two dictionaries. -/
def beqEntries : List (Key × Value) → List (Key × Value) → Bool
  | [], [] => true
  | (j, x) :: xs, (k, y) :: ys => decide (j = k) && x.beq y && beqEntries xs ys
  | _, _ => false

end

mutual

theorem beq_iff : ∀ a b : Value, a.beq b = true ↔ a = b
  | .null, b => by cases b <;> simp [beq]
  | .bool _, b => by cases b <;> simp [beq]
  | .int _, b => by cases b <;> simp [beq]
  | .float _, b => by cases b <;> simp [beq]
  | .text _, b => by cases b <;> simp [beq]
  | .list xs, b => by cases b <;> simp [beq, beqItems_iff xs]
  | .dict xs, b => by cases b <;> simp [beq, beqEntries_iff xs]

theorem beqItems_iff : ∀ xs ys : List Value, beqItems xs ys = true ↔ xs = ys
  | [], ys => by cases ys <;> simp [beqItems]
  | x :: xs, ys => by cases ys <;> simp [beqItems, beq_iff x, beqItems_iff xs]

theorem beqEntries_iff : ∀ xs ys : List (Key × Value), beqEntries xs ys = true ↔ xs = ys
  | [], ys => by cases ys <;> simp [beqEntries]
  | (j, x) :: xs, ys => by
    rcases ys with _ | ⟨⟨k, y⟩, ys⟩
    · simp [beqEntries]
    · simp [beqEntries, beq_iff x, beqEntries_iff xs, and_assoc]

end

instance : DecidableEq Value := fun a b => decidable_of_iff _ (beq_iff a b)

instance : Inhabited Value := ⟨.null⟩

/-! ### Parts -/

/-- The value that a key is. -/
def ofKey : Key → Value
  | .null => .null
  | .text s => .text s
  | .int i => .int i
  | .float x => .float x
  | .bool b => .bool b

/-- The scalar that may serve as a key; lists and dictionaries may not. -/
def key? : Value → Option Key
  | .null => some .null
  | .text s => some (.text s)
  | .int i => some (.int i)
  | .float x => some (.float x)
  | .bool b => some (.bool b)
  | _ => none

/-- A key that may be absent. -/
def ofKey? : Option Key → Value
  | some k => ofKey k
  | none => .null

/-- The text that a value is. -/
def text? : Value → Option String
  | .text s => some s
  | _ => none

/-- A text that may be absent. -/
def ofText? : Option String → Value
  | some s => .text s
  | none => .null

/-- A dictionary with texts as keys. -/
def record (entries : List (String × Value)) : Value :=
  .dict (entries.map fun (k, v) => (.text k, v))

/-- Whether a value counts as something: not `null`, falsity, zero, or empty. -/
def isTruthy : Value → Bool
  | .null => false
  | .bool b => b
  | .int i => i != 0
  | .float x => !x.isZero
  | .text s => !s.isEmpty
  | .list xs => !xs.isEmpty
  | .dict es => !es.isEmpty

/-! ### Equality by value

Scalars are equal as keys are, lists by their items, dictionaries by what they hold under each key,
in any order.  A `nan` is found again as a part of a list or a dictionary, but by itself it is not
equal to anything. -/

mutual

/-- Whether two values are equal, or one and the same. -/
def alike : Value → Value → Bool
  | .text s, .text t => decide (s = t)
  | .list xs, .list ys => alikeItems xs ys
  | .dict xs, .dict ys => xs.length == ys.length && alikeEntries xs ys
  | a, b =>
    match a.key?, b.key? with
    | some j, some k => j.same k
    | _, _ => false

/-- `alike` along two lists. -/
def alikeItems : List Value → List Value → Bool
  | [], [] => true
  | x :: xs, y :: ys => x.alike y && alikeItems xs ys
  | _, _ => false

/-- Whether the second dictionary holds what the first one does. -/
def alikeEntries : List (Key × Value) → List (Key × Value) → Bool
  | [], _ => true
  | (k, x) :: xs, ys =>
    (match Entries.get? ys k with
      | some y => x.alike y
      | none => false) && alikeEntries xs ys

end

/-- What is not a number. -/
def isNaN : Value → Bool
  | .float (.nan _) => true
  | _ => false

/-- Equality by value. -/
def same (a b : Value) : Bool := a.alike b && !a.isNaN

@[simp] theorem same_text (s t : String) : same (.text s) (.text t) = decide (s = t) := by
  simp [same, alike, isNaN]

@[simp] theorem same_int (i j : Int) : same (.int i) (.int j) = decide (i = j) := by
  simp [same, alike, key?, isNaN]

/-! ### Text -/

mutual

/-- A value as a literal. -/
def quoted : Value → String
  | .null => "None"
  | .bool b => (Key.bool b).quoted
  | .int i => (Key.int i).quoted
  | .float x => (Key.float x).quoted
  | .text s => (Key.text s).quoted
  | .list xs => "[" ++ ", ".intercalate (quotedItems xs) ++ "]"
  | .dict es => "\x7b" ++ ", ".intercalate (quotedEntries es) ++ "\x7d"

/-- The literals of the items of a list. -/
def quotedItems : List Value → List String
  | [] => []
  | v :: vs => v.quoted :: quotedItems vs

/-- The entries of a dictionary, key and value with a colon between them. -/
def quotedEntries : List (Key × Value) → List String
  | [] => []
  | (k, v) :: es => (k.quoted ++ ": " ++ v.quoted) :: quotedEntries es

end

/-- A value in running text: a text as itself, all else as its literal, without a limit on the digits
of a whole number. -/
def display : Value → String
  | .text s => s
  | v => v.quoted

mutual

/-- How deeply lists and dictionaries nest in a value. -/
def depth : Value → Nat
  | .list xs => depthItems xs + 1
  | .dict es => depthEntries es + 1
  | _ => 0

/-- The greatest depth among the items of a list. -/
def depthItems : List Value → Nat
  | [] => 0
  | v :: vs => max v.depth (depthItems vs)

/-- The greatest depth among the values of a dictionary. -/
def depthEntries : List (Key × Value) → Nat
  | [] => 0
  | (_, v) :: es => max v.depth (depthEntries es)

end

end Value

end Blockwork
