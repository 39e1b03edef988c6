/-!
# Merges

Two runs made into one.  A merge goes from the front or from the back and takes one item after the
other, as long as neither run wins several times in a row; then it looks for the place up to which
one run wins by steps that double and then halve, and takes all at once (`Side.count`).  How often
a run has to win before that changes with the success of it.  Where the test of what comes before
what is no order the outcome depends on all this; no item is lost in any case (`Merge.join_perm`).
-/

namespace Blockwork.Sorting.Merge

variable {α : Type} (before : α → α → Option Bool)

/-! ### Places -/

/-- Whether there is an item and it passes a test. -/
def passes (p : α → Option Bool) : Option α → Option Bool
  | none => some false
  | some x => p x

/-- The last place that was found to pass a test, going on from `last` by steps that double, and the
first that was found not to, or the length of the list. -/
def stride (p : α → Option Bool) (xs : List α) : Nat → Nat → Option (Nat × Nat)
  | 0, last => some (last, xs.length)
  | n + 1, last =>
    match xs[2 * last + 1]? with
    | none => some (last, xs.length)
    | some x => do
      if ← p x then stride p xs n (2 * last + 1) else return (last, 2 * last + 1)

/-- The number of items that pass a test, where all before `low` do and none from `low + width` on,
found by halving. -/
def halve (middle : Nat → Nat) (p : α → Option Bool) (xs : List α) : Nat → Nat → Nat → Option Nat
  | 0, low, _ => some low
  | n + 1, low, width =>
    if width = 0 then some low
    else do
      let place := low + middle width
      if ← passes p xs[place]? then halve middle p xs n (place + 1) (low + width - (place + 1))
      else halve middle p xs n low (place - low)

/-- The side from which a merge goes. -/
inductive Side where
  | front
  | back
  deriving DecidableEq, Repr

namespace Side

/-- The middle of so many places, as they are counted from a side: the same one from both. -/
def middle : Side → Nat → Nat
  | .front, width => width / 2
  | .back, width => (width - 1) / 2

/-- How many items at the start of a list, which is read from a side, pass a test. -/
def count (s : Side) (p : α → Option Bool) (xs : List α) : Option Nat := do
  if ← passes p xs.head? then
    let (last, far) ← stride p xs xs.length 0
    halve s.middle p xs xs.length (last + 1) (far - (last + 1))
  else return 0

/-- Whether the item of the first run is taken, and not that of the second. -/
def takesFirst (s : Side) (x y : α) : Option Bool :=
  (before y x).map (· == decide (s = .back))

/-- Whether the item of the second run is taken, and not that of the first. -/
def takesSecond (s : Side) (x y : α) : Option Bool := (s.takesFirst before x y).map (!·)

/-- Whether one run is used up, or only the item that is known to come last is left of it. -/
def isOver (s : Side) (xs ys : List α) : Bool :=
  match s with
  | .front => xs.length ≤ 1 || ys.isEmpty
  | .back => xs.isEmpty || ys.length ≤ 1

/-- What is left at the end: the run with the item that comes last is put behind the other one. -/
def leftover (s : Side) (xs ys : List α) : List α :=
  match s with
  | .front => ys ++ xs
  | .back => xs ++ ys

end Side

/-! ### Two runs -/

/-- A part of a merge before the rest of it. -/
def push (items : List α) (r : Option (List α × Nat)) : Option (List α × Nat) :=
  r.map fun q => (items ++ q.1, q.2)

/-- How many items have to be taken at once for taking more at once. -/
def worthwhile : Nat := 7

mutual

/-- Merges item by item, in at most `n` steps; `wins` and `losses` say how often in a row the first
and the second run have won, and `bar` how often one of them has to.  The answer is the merged list
and the bar for the next merge. -/
def singly (s : Side) : Nat → Nat → Nat → Nat → List α → List α → Option (List α × Nat)
  | 0, bar, _, _, xs, ys => some (s.leftover xs ys, bar)
  | n + 1, bar, wins, losses, xs, ys =>
    if s.isOver xs ys then some (s.leftover xs ys, bar)
    else match xs, ys with
      | x :: xs', y :: ys' => do
        if ← s.takesFirst before x y then
          push [x] (if wins + 1 < bar || s.isOver xs' ys then
              singly s n bar (wins + 1) 0 xs' ys
            else inBulk s n bar xs' ys)
        else
          push [y] (if losses + 1 < bar || s.isOver xs ys' then
              singly s n bar 0 (losses + 1) xs ys'
            else inBulk s n bar xs ys')
      | xs, ys => some (s.leftover xs ys, bar)

/-- Merges by taking as many items of one run as can be, then one of the other, and the other way
round. -/
def inBulk (s : Side) : Nat → Nat → List α → List α → Option (List α × Nat)
  | 0, bar, xs, ys => some (s.leftover xs ys, bar)
  | _ + 1, bar, xs, [] => some (s.leftover xs [], bar)
  | n + 1, bar, xs, y :: ys => do
    let i ← s.count (s.takesFirst before · y) xs
    push (xs.take i) <|
      if s.isOver (xs.drop i) (y :: ys) then some (s.leftover (xs.drop i) (y :: ys), bar)
      else push [y] <|
        if s.isOver (xs.drop i) ys then some (s.leftover (xs.drop i) ys, bar)
        else match xs.drop i with
          | [] => some (s.leftover [] ys, bar)
          | x :: xs => do
            let j ← s.count (s.takesSecond before x ·) ys
            push (ys.take j) <|
              if s.isOver (x :: xs) (ys.drop j) then some (s.leftover (x :: xs) (ys.drop j), bar)
              else push [x] <|
                if s.isOver xs (ys.drop j) then some (s.leftover xs (ys.drop j), bar)
                else if worthwhile ≤ i || worthwhile ≤ j then
                  inBulk s n (if 1 < bar then bar - 1 else bar) xs (ys.drop j)
                else singly s n (bar + 1) 0 0 xs (ys.drop j)

end

/-- Merges two runs, where the first item of the second one comes first of all and the last item of
the first one comes last.  It goes from the side of the shorter run. -/
def between (bar : Nat) (xs ys : List α) : Option (List α × Nat) :=
  if xs.length ≤ ys.length then
    push (ys.take 1) (singly before .front (xs.length + ys.length) bar 0 0 xs (ys.drop 1))
  else
    (push (xs.reverse.take 1)
      (singly before .back (xs.length + ys.length) bar 0 0 (xs.reverse.drop 1) ys.reverse)).map
        fun q => (q.1.reverse, q.2)

/-- Makes two runs into one; what is in its place already stays there. -/
def join (bar : Nat) (xs ys : List α) : Option (List α × Nat) :=
  match ys.head? with
  | none => some (xs ++ ys, bar)
  | some y => do
    let i ← Side.front.count (Side.front.takesFirst before · y) xs
    match (xs.drop i).getLast? with
    | none => some (xs ++ ys, bar)
    | some x =>
      let behind ← Side.back.count (fun y => (before y x).map (!·)) ys.reverse
      let j := ys.length - behind
      if j = 0 then some (xs ++ ys, bar)
      else push (xs.take i) <|
        (between before bar (xs.drop i) (ys.take j)).map fun q => (q.1 ++ ys.drop j, q.2)

/-! ### Permutations -/

variable {before}

/-- Whether a merge, if it has an answer, holds the same items as a list. -/
structure Keeps (r : Option (List α × Nat)) (zs : List α) : Prop where
  perm : ∀ q, r = some q → q.1.Perm zs

theorem keeps_some {q : List α × Nat} {zs : List α} (h : q.1.Perm zs) : Keeps (some q) zs := by
  refine ⟨?_⟩
  rintro q' ⟨⟩
  exact h

theorem keeps_bind {β : Type} {c : Option β} {f : β → Option (List α × Nat)} {zs : List α}
    (h : ∀ b, Keeps (f b) zs) : Keeps (c >>= f) zs := by
  refine ⟨fun q e => ?_⟩
  obtain ⟨b, -, e⟩ := Option.bind_eq_some_iff.1 e
  exact (h b).perm q e

theorem Keeps.map {r : Option (List α × Nat)} {zs zs' : List α} {f : List α → List α}
    (h : Keeps r zs) (hf : ∀ xs : List α, xs.Perm zs → (f xs).Perm zs') :
    Keeps (r.map fun q => (f q.1, q.2)) zs' := by
  refine ⟨fun q e => ?_⟩
  obtain ⟨q', found, rfl⟩ := Option.map_eq_some_iff.1 e
  exact hf _ (h.perm q' found)

theorem leftover_perm (s : Side) (xs ys : List α) : (s.leftover xs ys).Perm (xs ++ ys) := by
  cases s with
  | front => exact List.perm_append_comm
  | back => exact .refl _

theorem keeps_leftover (s : Side) (xs ys : List α) (bar : Nat) :
    Keeps (some (s.leftover xs ys, bar)) (xs ++ ys) := keeps_some (leftover_perm s xs ys)

/-- Taking items of the first run loses none. -/
theorem Keeps.push_first (taken : List α) {xs ys : List α} {r : Option (List α × Nat)}
    (h : Keeps r (xs ++ ys)) : Keeps (push taken r) (taken ++ xs ++ ys) :=
  h.map fun zs hz => by
    rw [List.append_assoc]
    exact hz.append_left taken

/-- Taking items of the second run loses none. -/
theorem Keeps.push_second (taken : List α) {xs ys : List α} {r : Option (List α × Nat)}
    (h : Keeps r (xs ++ ys)) : Keeps (push taken r) (xs ++ (taken ++ ys)) :=
  h.map fun zs hz => by
    refine (hz.append_left taken).trans ?_
    rw [← List.append_assoc, ← List.append_assoc]
    exact List.perm_append_comm.append_right ys

/-- Taking the first `i` items of the first run loses none. -/
theorem Keeps.push_take_first (i : Nat) {xs ys : List α} {r : Option (List α × Nat)}
    (h : Keeps r (xs.drop i ++ ys)) : Keeps (push (xs.take i) r) (xs ++ ys) := by
  have := h.push_first (xs.take i)
  rwa [List.take_append_drop] at this

/-- Taking the first `j` items of the second run loses none. -/
theorem Keeps.push_take_second (j : Nat) {xs ys : List α} {r : Option (List α × Nat)}
    (h : Keeps r (xs ++ ys.drop j)) : Keeps (push (ys.take j) r) (xs ++ ys) := by
  have := h.push_second (ys.take j)
  rwa [List.take_append_drop] at this

/-- Both ways of merging keep every item as often as it is there. -/
theorem keeps_merge (s : Side) (n : Nat) :
    (∀ bar wins losses, ∀ xs ys : List α,
      Keeps (singly before s n bar wins losses xs ys) (xs ++ ys)) ∧
    ∀ bar, ∀ xs ys : List α, Keeps (inBulk before s n bar xs ys) (xs ++ ys) := by
  induction n with
  | zero =>
    exact ⟨fun _ _ _ xs ys => by unfold singly; exact keeps_leftover ..,
      fun _ xs ys => by unfold inBulk; exact keeps_leftover ..⟩
  | succ n ih =>
    refine ⟨fun bar wins losses xs ys => ?_, fun bar xs ys => ?_⟩
    · unfold singly
      split
      · exact keeps_leftover ..
      · split
        · rename_i x xs y ys _
          refine keeps_bind fun first => ?_
          split
          · refine Keeps.push_first [x] ?_
            split
            · exact ih.1 ..
            · exact ih.2 ..
          · refine Keeps.push_second [y] ?_
            split
            · exact ih.1 ..
            · exact ih.2 ..
        · exact keeps_leftover ..
    · match ys with
      | [] => unfold inBulk; exact keeps_leftover ..
      | y :: ys =>
        unfold inBulk
        refine keeps_bind fun i => Keeps.push_take_first i ?_
        split
        · exact keeps_leftover ..
        · refine Keeps.push_second [y] ?_
          split
          · exact keeps_leftover ..
          · split
            · rename_i h
              rw [h]
              exact keeps_leftover ..
            · rename_i x rest h
              rw [h]
              refine keeps_bind fun j => Keeps.push_take_second j ?_
              split
              · exact keeps_leftover ..
              · refine Keeps.push_first [x] ?_
                split
                · exact keeps_leftover ..
                · split
                  · exact ih.2 ..
                  · exact ih.1 ..

theorem keeps_between (bar : Nat) (xs ys : List α) :
    Keeps (between before bar xs ys) (xs ++ ys) := by
  unfold between
  split
  · exact ((keeps_merge .front (xs.length + ys.length)).1 bar 0 0 xs (ys.drop 1)).push_take_second 1
  · refine (Keeps.push_take_first 1
      ((keeps_merge .back (xs.length + ys.length)).1 bar 0 0 (xs.reverse.drop 1) ys.reverse)).map
        fun zs hz => ?_
    refine (List.reverse_perm _).trans (hz.trans ?_)
    exact (List.reverse_perm _).append (List.reverse_perm _)

/-- Making two runs into one keeps every item as often as it is there. -/
theorem join_perm {bar : Nat} {xs ys : List α} {r : List α × Nat}
    (h : join before bar xs ys = some r) : r.1.Perm (xs ++ ys) := by
  suffices Keeps (join before bar xs ys) (xs ++ ys) from this.perm r h
  unfold join
  split
  · exact keeps_some (.refl _)
  · refine keeps_bind fun i => ?_
    split
    · exact keeps_some (.refl _)
    · refine keeps_bind fun behind => ?_
      dsimp only
      split
      · exact keeps_some (.refl _)
      · refine Keeps.push_take_first i
          ((keeps_between ..).map (f := (· ++ ys.drop (ys.length - behind))) fun zs hz => ?_)
        refine (hz.append_right _).trans ?_
        rw [List.append_assoc, List.take_append_drop]

end Blockwork.Sorting.Merge
