import Blockwork.Sorting.Merge
import Blockwork.Sorting.Runs

/-!
# Sorting

Lists sorted by a test of what comes before what.  A list is cut into runs, which are put on a pile;
before one more run is put on it, those on top are merged as far as they lie deeper in the halves,
quarters and so on of the list, so that runs of about the same length are merged with each other
(`Sorting.sort`).  The test need not be an order; the outcome is a permutation in any case
(`Sorting.sort_perm`).  Nor need it compare all items: there is no outcome when it comes upon two
items that it cannot compare.
-/

namespace Blockwork.Sorting

variable {α : Type} (before : α → α → Option Bool)

/-- A run on the pile, with the place where it starts and the depth of its end. -/
structure Piled (α : Type) where
  items : List α
  start : Nat
  depth : Nat := 0

/-- The least length of a run in a list of so many items: fewer than 64, and about a power of two
times in the length of the list.  What halving cuts off counts as one item more. -/
def leastRun (extra length : Nat) : Nat :=
  if length < 64 then length + extra else leastRun (max extra (length % 2)) (length / 2)
termination_by length

/-- How often a list is halved until the middles of two runs, in half items, come to lie in
different parts; at most `n` times. -/
def depthBetween (length : Nat) : Nat → Nat → Nat → Nat
  | 0, _, _ => 0
  | n + 1, x, y =>
    if length ≤ x then depthBetween length n (2 * (x - length)) (2 * (y - length)) + 1
    else if length ≤ y then 1
    else depthBetween length n (2 * x) (2 * y) + 1

/-- The depth of the place between a run on the pile and the next one, of so many items. -/
def Piled.depthBefore (p : Piled α) (length next : Nat) : Nat :=
  let middle := 2 * p.start + p.items.length
  depthBetween length (length + 1) middle (middle + p.items.length + next)

/-- Merges the run on top with those below it whose ends lie deeper than some depth. -/
def reduce (depth : Nat) (bar : Nat) (top : Piled α) :
    List (Piled α) → Option (Piled α × List (Piled α) × Nat)
  | [] => some (top, [], bar)
  | below :: rest =>
    if depth < below.depth then do
      let merged ← Merge.join before bar below.items top.items
      reduce depth merged.2 { below with items := merged.1 } rest
    else some (top, below :: rest, bar)

/-- The pile, the run on top first, made ready for one more run of so many items. -/
def makeReady (length bar next : Nat) : List (Piled α) → Option (List (Piled α) × Nat)
  | [] => some ([], bar)
  | top :: pile => do
    let depth := top.depthBefore length next
    let r ← reduce before depth bar top pile
    return ({ r.1 with depth } :: r.2.1, r.2.2)

/-- Puts the runs of what is left of a list on the pile. -/
def pileUp (length least bar : Nat) (pile : List (Piled α)) (xs : List α) :
    Option (List (Piled α) × Nat) :=
  match xs with
  | [] => some (pile, bar)
  | x :: xs =>
    match _cut : nextRun before least (x :: xs) with
    | none => none
    | some cut =>
      match makeReady before length bar cut.1.length pile with
      | none => none
      | some ready =>
        pileUp length least ready.2 (⟨cut.1, length - (xs.length + 1), 0⟩ :: ready.1) cut.2
termination_by xs.length
decreasing_by exact length_nextRun_lt _cut

/-- Merges all runs, the last one first; of three runs the first two, where the first one is shorter
than the last one. -/
def collapse (bar : Nat) (top : List α) : List (List α) → Option (List α)
  | [] => some top
  | [below] => (Merge.join before bar below top).map (·.1)
  | below :: third :: rest =>
    if third.length < top.length then
      match Merge.join before bar third below with
      | none => none
      | some merged => collapse merged.2 top (merged.1 :: rest)
    else
      match Merge.join before bar below top with
      | none => none
      | some merged => collapse merged.2 merged.1 (third :: rest)
termination_by runs => runs.length

/-- The items sorted. -/
def sort (xs : List α) : Option (List α) := do
  match ← pileUp before xs.length (leastRun 0 xs.length) Merge.worthwhile [] xs with
  | ([], _) => return []
  | (top :: pile, bar) => collapse before bar top.items (pile.map (·.items))

/-! ### Permutations -/

variable {before}

/-- All items on a pile. -/
def itemsOf (pile : List (Piled α)) : List α := pile.flatMap (·.items)

theorem reduce_perm {depth bar : Nat} {top : Piled α} {pile : List (Piled α)}
    {r : Piled α × List (Piled α) × Nat} (h : reduce before depth bar top pile = some r) :
    (r.1.items ++ itemsOf r.2.1).Perm (top.items ++ itemsOf pile) := by
  induction pile generalizing bar top with
  | nil =>
    simp only [reduce, Option.some.injEq] at h
    simp [← h]
  | cons below rest ih =>
    unfold reduce at h
    split at h
    · simp only [bind, Option.bind_eq_some_iff] at h
      obtain ⟨merged, hm, h⟩ := h
      refine (ih h).trans ?_
      refine ((Merge.join_perm hm).append_right _).trans ?_
      simp only [itemsOf, List.flatMap_cons, ← List.append_assoc]
      exact List.perm_append_comm.append_right _
    · simp only [Option.some.injEq] at h
      simp [← h]

theorem makeReady_perm {length bar next : Nat} {pile : List (Piled α)} {r : List (Piled α) × Nat}
    (h : makeReady before length bar next pile = some r) :
    (itemsOf r.1).Perm (itemsOf pile) := by
  match pile with
  | [] =>
    simp only [makeReady, Option.some.injEq] at h
    simp [← h]
  | top :: pile =>
    simp only [makeReady, bind, pure, Option.bind_eq_some_iff, Option.some.injEq] at h
    obtain ⟨q, hq, rfl⟩ := h
    exact reduce_perm hq

theorem pileUp_perm {length least bar : Nat} {pile : List (Piled α)} {xs : List α}
    {r : List (Piled α) × Nat} (h : pileUp before length least bar pile xs = some r) :
    (itemsOf r.1).Perm (itemsOf pile ++ xs) := by
  fun_induction pileUp before length least bar pile xs with
  | case1 =>
    simp only [Option.some.injEq] at h
    simp [← h]
  | case2 | case3 => simp at h
  | case4 bar pile x xs cut hcut ready hready ih =>
    refine (ih h).trans ?_
    have whole : (cut.1 ++ cut.2).Perm (x :: xs) := nextRun_perm hcut
    have kept : (itemsOf ready.1).Perm (itemsOf pile) := makeReady_perm hready
    have swapped : (cut.1 ++ itemsOf ready.1 ++ cut.2).Perm (itemsOf ready.1 ++ cut.1 ++ cut.2) :=
      List.perm_append_comm.append_right _
    refine swapped.trans ?_
    rw [List.append_assoc]
    exact kept.append whole

theorem collapse_perm {bar : Nat} {top : List α} {runs : List (List α)} {ys : List α}
    (h : collapse before bar top runs = some ys) : ys.Perm (top ++ runs.flatten) := by
  fun_induction collapse before bar top runs with
  | case1 => simp_all
  | case2 =>
    obtain ⟨merged, hm, rfl⟩ := Option.map_eq_some_iff.1 h
    simpa using (Merge.join_perm hm).trans List.perm_append_comm
  | case3 | case5 => simp at h
  | case4 bar top below third rest _ merged hm ih =>
    refine (ih h).trans (List.Perm.append_left top ?_)
    simp only [List.flatten_cons, ← List.append_assoc]
    exact ((Merge.join_perm hm).trans List.perm_append_comm).append_right _
  | case6 bar top below third rest _ merged hm ih =>
    refine (ih h).trans ?_
    simp only [List.flatten_cons, ← List.append_assoc]
    exact ((Merge.join_perm hm).trans List.perm_append_comm).append_right _ |>.append_right _

/-- Sorting keeps every item as often as it is there. -/
theorem sort_perm {xs ys : List α} (h : sort before xs = some ys) : ys.Perm xs := by
  simp only [sort, bind, Option.bind_eq_some_iff] at h
  obtain ⟨r, hr, h⟩ := h
  have piled := pileUp_perm hr
  split at h
  · simp only [pure, Option.some.injEq] at h
    simpa [itemsOf, ← h] using piled
  · refine (collapse_perm h).trans ?_
    simpa [itemsOf, List.flatMap_def] using piled

end Blockwork.Sorting
