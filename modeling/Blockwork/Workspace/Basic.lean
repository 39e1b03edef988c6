import Blockwork.Sorting
import Blockwork.Value.Order
import Blockwork.Vocabulary
import Blockwork.Workspace.Table

/-!
# Workspaces

The blocks on the table together with the vocabulary they are of.  From a block one walks along the
chain that it heads (`Workspace.chain`), down to everything that hangs from it
(`Workspace.descendants`), and up to the block that it hangs from in the end
(`Workspace.hangsFrom`).  A link that is no key cannot be followed, and neither can a walk that
comes upon it.
-/

namespace Blockwork

/-- A workspace. -/
structure Workspace where
  vocabulary : Vocabulary := Vocabulary.stock
  table : Table := .empty
  /-- Whether a drag gesture is in progress. -/
  dragging : Bool := false
  /-- How many times changes are kept from the audience. -/
  muted : Nat := 0
  /-- How many blocks have been created so far. -/
  created : Nat := 0

namespace Workspace

/-- A workspace without blocks; an empty vocabulary stands for the stock vocabulary. -/
def new (vocabulary : Vocabulary) (created : Nat) : Workspace :=
  { vocabulary := if vocabulary.declarations.isEmpty then .stock else vocabulary, created }

/-- The block under a key. -/
def find? (w : Workspace) (k : Key) : Option Block := w.table.find? k

/-- Whether there is a block under a key. -/
def contains (w : Workspace) (k : Key) : Bool := w.table.contains k

/-- The blocks with their keys, in the order of their creation. -/
def entries (w : Workspace) : List (Key × Block) := w.table.entries

/-- The blocks in the order of their creation. -/
def blocks (w : Workspace) : List Block := w.entries.map (·.2)

/-- The number of blocks. -/
def size (w : Workspace) : Nat := w.table.size

/-- The declaration of a block's type. -/
def declarationOf (w : Workspace) (b : Block) : Except Error Declaration := do
  w.vocabulary.get (← b.type.toKey)

/-! ### Blocks that hang nowhere -/

/-- A block with what it is placed by among others. -/
structure Spot where
  block : Block
  /-- The coordinate downwards. -/
  y : Value
  /-- The coordinate to the right. -/
  x : Value
  /-- The place in the order of creation. -/
  rank : Nat

/-- Whether one block comes before another: higher, or as high and further to the left, or in the
same place and created earlier.  There is no answer where coordinates cannot be compared. -/
def Spot.before (a b : Spot) : Option Bool :=
  if !a.y.levels b.y then a.y.precedes? b.y
  else if !a.x.levels b.x then a.x.precedes? b.x
  else some (a.rank < b.rank)

/-- A coordinate of a block. -/
def coordinate (b : Block) (place : Nat) : Except Error Value :=
  match b.position[place]? with
  | some v => .ok v
  | none => .error (.failure .outOfRange)

/-- The place in the order of creation of the block that an id belongs to; for a block under its own
id it is `own`. -/
def rankOf (w : Workspace) (k : Key) (own : Nat) (id : Value) : Except Error Nat := do
  let j ← id.toKey
  if j == k then return own
  match w.table.place? j with
  | some n => return n
  | none => throw (.failure .missingKey)

/-- A block with what it is placed by, as it stands in the order of creation. -/
def spotOf (w : Workspace) (k : Key) (b : Block) (own : Nat) : Except Error Spot := do
  let y ← coordinate b 1
  let x ← coordinate b 0
  return ⟨b, y, x, ← w.rankOf k own b.id⟩

/-- The blocks that hang nowhere, as they stand in the order of creation. -/
def spots (w : Workspace) : Except Error (List Spot) :=
  (w.entries.zipIdx.filter (·.1.2.isTop)).mapM fun ((k, b), i) => w.spotOf k b i

/-- The blocks that hang nowhere, from top to bottom and from left to right, those in one place in
the order of their creation. -/
def tops (w : Workspace) : Except Error (List Block) := do
  match Sorting.sort Spot.before (← w.spots) with
  | some sorted => return sorted.map (·.block)
  | none => throw (.failure .wrongType)

/-- The ids of the blocks that are highlighted. -/
def highlighted (w : Workspace) : List Value := (w.blocks.filter (·.isHighlighted)).map (·.id)

/-! ### Walks

No walk is longer than there are blocks, as long as no block hangs from itself. -/

/-- The blocks with their keys from `k` on, each the next one of the one before it. -/
def chainFrom (w : Workspace) : Nat → Key → Except Error (List (Key × Block))
  | 0, _ => .ok []
  | n + 1, k =>
    match w.find? k with
    | none => .ok []
    | some b => do
      if b.next.isTruthy then return (k, b) :: (← chainFrom w n (← b.next.toKey))
      else return [(k, b)]

/-- A block and the blocks that follow it. -/
def chain (w : Workspace) (k : Key) : Except Error (List (Key × Block)) := w.chainFrom w.size k

/-- The blocks that are reached from `k` in `n` steps down, those of each socket together. -/
def descendantsFrom (w : Workspace) : Nat → Key → Except Error (List Block)
  | 0, _ => .ok []
  | n + 1, k =>
    match w.find? k with
    | none => .ok []
    | some b => do
      let below ← b.targets.mapM fun t => do descendantsFrom w n (← t.toKey)
      return b :: below.flatten

/-- Adds the blocks that are reached from `k` in `n` steps down to those found before, the newest
first. -/
def gather (w : Workspace) : Nat → List Block → Key → Except Error (List Block)
  | 0, found, _ => .ok found
  | n + 1, found, k =>
    match w.find? k with
    | none => .ok found
    | some b => b.targets.foldlM (fun found t => do gather w n found (← t.toKey)) (b :: found)

/-- A block, what hangs from its sockets, and the blocks that follow it with what hangs from
theirs. -/
def descendants (w : Workspace) (k : Key) : Except Error (List Block) :=
  List.reverse <$> w.gather w.size [] k

/-- Adding parts one after the other, the newest first, is the same as taking them together. -/
theorem foldlM_reverse {ε α β : Type} {g : List β → α → Except ε (List β)}
    {f : α → Except ε (List β)}
    (h : ∀ found a, g found a = (fun bs => bs.reverse ++ found) <$> f a) (as : List α)
    (found : List β) :
    as.foldlM g found = (fun bs => (List.flatten bs).reverse ++ found) <$> as.mapM f := by
  induction as generalizing found with
  | nil => rfl
  | cons a as ih =>
    rw [List.foldlM_cons, List.mapM_cons, h]
    cases f a with
    | error e => rfl
    | ok bs =>
      change as.foldlM g (bs.reverse ++ found) = _
      rw [ih]
      cases as.mapM f with
      | error e => rfl
      | ok bss => simp [Functor.map, Except.map, bind, Except.bind, pure, Except.pure]

theorem gather_eq (w : Workspace) (n : Nat) (found : List Block) (k : Key) :
    w.gather n found k = (fun bs => bs.reverse ++ found) <$> w.descendantsFrom n k := by
  induction n generalizing found k with
  | zero => rfl
  | succ n ih =>
    unfold gather descendantsFrom
    cases w.find? k with
    | none => rfl
    | some b =>
      simp only
      rw [foldlM_reverse (f := fun t => do w.descendantsFrom n (← t.toKey))]
      · cases List.mapM (m := Except Error) _ b.targets with
        | error e => rfl
        | ok bss => simp [Functor.map, Except.map, bind, Except.bind, pure, Except.pure]
      · intro found t
        cases t.toKey with
        | error e => rfl
        | ok j => exact ih found j

/-- The descendants are those that are reached in as many steps as there are blocks. -/
theorem descendants_eq (w : Workspace) (k : Key) :
    w.descendants k = w.descendantsFrom w.size k := by
  rw [descendants, gather_eq]
  cases w.descendantsFrom w.size k <;> simp [Functor.map, Except.map]

/-- Whether a block with an id is reached from `k` in `n` steps up. -/
def reachesUp (w : Workspace) (id : Value) : Nat → Key → Except Error Bool
  | 0, _ => .ok false
  | n + 1, k =>
    match w.find? k with
    | none => .ok false
    | some b => do
      if b.id.same id then return true
      else if b.parent.isTruthy then reachesUp w id n (← b.parent.toKey)
      else return false

/-- Whether `k` hangs from `above`, or is the same block. -/
def hangsFrom (w : Workspace) (above k : Key) : Except Error Bool :=
  w.reachesUp (.ofKey above) w.size k

end Workspace

end Blockwork
