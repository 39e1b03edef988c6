import Blockwork.Number.Decimal
import Blockwork.Text.Quoted

/-!
# Keys

The scalars that name things: block ids, block types and the keys of dictionaries.  They are texts
as a rule, but any scalar may stand in their place.  Two keys name the same thing when they are
equal as values, where truth values count as one and zero (`Key.same`).
-/

namespace Blockwork

/-- A scalar that can name something. -/
inductive Key where
  | null
  | text (s : String)
  | int (i : Int)
  | float (x : Binary64)
  | bool (b : Bool)
  deriving DecidableEq

/-- What keys name: the same for all keys that are equal as values. -/
inductive Key.Name where
  | null
  | text (s : String)
  | whole (i : Int)
  | number (x : Binary64)
  deriving DecidableEq

instance : Hashable Key.Name where
  hash
    | .null => 11
    | .text s => hash s
    | .whole i => hash i
    | .number _ => 7

namespace Key

/-- The thing that a key names; a number is whole where its value is. -/
def name : Key → Name
  | .null => .null
  | .text s => .text s
  | .int i => .whole i
  | .float x => match x.toInt? with
    | some i => .whole i
    | none => .number x
  | .bool b => .whole b.toNat

/-- Whether two keys name the same thing. -/
def same : Key → Key → Bool
  | .text s, .text t => decide (s = t)
  | a, b => decide (a.name = b.name)

theorem same_iff_name (a b : Key) : same a b = true ↔ a.name = b.name := by
  unfold same
  split
  · simp [name]
  · exact decide_eq_true_iff

/-- Keys are compared by what they name. -/
instance : BEq Key := ⟨same⟩

theorem beq_iff_name (a b : Key) : (a == b) = true ↔ a.name = b.name := same_iff_name a b

instance : EquivBEq Key where
  rfl := (beq_iff_name ..).2 rfl
  symm h := (beq_iff_name ..).2 ((beq_iff_name ..).1 h).symm
  trans h₁ h₂ := (beq_iff_name ..).2 (((beq_iff_name ..).1 h₁).trans ((beq_iff_name ..).1 h₂))

instance : Hashable Key where
  hash
    | .text s => hash s
    | k => hash k.name

theorem hash_eq_name (k : Key) : hash k = hash k.name := by cases k <;> rfl

instance : LawfulHashable Key where
  hash_eq j k h := by rw [hash_eq_name, hash_eq_name, (beq_iff_name j k).1 h]

@[simp] theorem same_text (s t : String) : same (.text s) (.text t) = decide (s = t) := rfl

@[simp] theorem same_int (i j : Int) : same (.int i) (.int j) = decide (i = j) := by
  simp [same, name]

@[simp] theorem beq_text (s t : String) : (Key.text s == Key.text t) = decide (s = t) :=
  same_text s t

@[simp] theorem same_self (k : Key) : k.same k = true := (same_iff_name k k).2 rfl

instance : Coe String Key := ⟨.text⟩

/-- Whether a key says nothing: `null`, the empty text, zero, and falsity. -/
def isVoid : Key → Bool
  | .null => true
  | .text s => s.isEmpty
  | .int i => i == 0
  | .float x => x.isZero
  | .bool b => !b

/-- A key as a literal.  A whole number has all its digits there: only reading one has a limit
(`Decimal.digitLimit`). -/
def quoted : Key → String
  | .null => "None"
  | .text s => Text.quoted s
  | .int i => Decimal.integer i
  | .float x => Decimal.text .plain x
  | .bool b => if b then "True" else "False"

/-- A key in running text: a text as itself, all else as its literal. -/
def display : Key → String
  | .text s => s
  | k => k.quoted

end Key

end Blockwork
