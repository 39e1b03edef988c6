/-!
# Runs

The runs of a list: stretches that rise already, or that fall and are turned round.  A short run is
made longer by inserting the items behind it, each in a place that is found by halving
(`Sorting.nextRun`).  The test of what comes before what need not be an order; no item is lost in
any case (`Sorting.nextRun_perm`).  There may be items that it cannot compare: when it comes upon
two of them, there is no answer.
-/

namespace Blockwork.Sorting

variable {α : Type} (before : α → α → Option Bool)

/-- The items at the start that do not come before the one they follow, and the rest. -/
def rise (last : α) : List α → Option (List α × List α)
  | [] => some ([], [])
  | x :: xs => do
    if ← before x last then return ([], x :: xs)
    else
      let r ← rise x xs
      return (x :: r.1, r.2)

/-- The items at the start that come before the one they follow, and the rest. -/
def fall (last : α) : List α → Option (List α × List α)
  | [] => some ([], [])
  | x :: xs => do
    if ← before x last then
      let r ← fall x xs
      return (x :: r.1, r.2)
    else return ([], x :: xs)

/-- A list with `x` inserted, by halving at most `n` times. -/
def insertWithin (x : α) : Nat → List α → Option (List α)
  | 0, xs => some (x :: xs)
  | n + 1, xs =>
    match xs.drop (xs.length / 2) with
    | [] => some (x :: xs)
    | middle :: later => do
      if ← before x middle then
        return (← insertWithin x n (xs.take (xs.length / 2))) ++ middle :: later
      else return xs.take (xs.length / 2) ++ middle :: (← insertWithin x n later)

/-- A list with `x` inserted: before the middle item, if it comes before it, or else behind it. -/
def insert (xs : List α) (x : α) : Option (List α) := insertWithin before x xs.length xs

/-- The run at the start of a list, in ascending order, and the rest. -/
def firstRun : List α → Option (List α × List α)
  | [] => some ([], [])
  | [x] => some ([x], [])
  | x :: y :: xs => do
    if ← before y x then
      let r ← fall before y xs
      return ((x :: y :: r.1).reverse, r.2)
    else
      let r ← rise before y xs
      return (x :: y :: r.1, r.2)

/-- The run at the start of a list, made as long as `least` where there are as many items, and the
rest. -/
def nextRun (least : Nat) (xs : List α) : Option (List α × List α) := do
  let r ← firstRun before xs
  let run ← (r.2.take (least - r.1.length)).foldlM (insert before) r.1
  return (run, r.2.drop (least - r.1.length))

/-! ### Permutations -/

variable {before}

theorem rise_append {last : α} {xs : List α} {r : List α × List α}
    (h : rise before last xs = some r) : r.1 ++ r.2 = xs := by
  induction xs generalizing last r with
  | nil =>
    simp only [rise, Option.some.injEq] at h
    simp [← h]
  | cons x xs ih =>
    simp only [rise, bind, pure, Option.bind_eq_some_iff] at h
    obtain ⟨b, -, h⟩ := h
    split at h
    · simp only [Option.some.injEq] at h
      simp [← h]
    · simp only [Option.bind_eq_some_iff, Option.some.injEq] at h
      obtain ⟨q, hq, rfl⟩ := h
      simp [ih hq]

theorem fall_append {last : α} {xs : List α} {r : List α × List α}
    (h : fall before last xs = some r) : r.1 ++ r.2 = xs := by
  induction xs generalizing last r with
  | nil =>
    simp only [fall, Option.some.injEq] at h
    simp [← h]
  | cons x xs ih =>
    simp only [fall, bind, pure, Option.bind_eq_some_iff] at h
    obtain ⟨b, -, h⟩ := h
    split at h
    · simp only [Option.bind_eq_some_iff, Option.some.injEq] at h
      obtain ⟨q, hq, rfl⟩ := h
      simp [ih hq]
    · simp only [Option.some.injEq] at h
      simp [← h]

theorem insertWithin_perm {x : α} {n : Nat} {xs ys : List α}
    (h : insertWithin before x n xs = some ys) : ys.Perm (x :: xs) := by
  induction n generalizing xs ys with
  | zero =>
    simp only [insertWithin, Option.some.injEq] at h
    rw [← h]
  | succ n ih =>
    unfold insertWithin at h
    split at h
    · simp only [Option.some.injEq] at h
      rw [← h]
    · rename_i middle later e
      have whole : xs.take (xs.length / 2) ++ middle :: later = xs := by
        rw [← e, List.take_append_drop]
      simp only [bind, pure, Option.bind_eq_some_iff] at h
      obtain ⟨b, -, h⟩ := h
      split at h <;> simp only [Option.bind_eq_some_iff, Option.some.injEq] at h <;>
        obtain ⟨zs, hzs, rfl⟩ := h
      · refine ((ih hzs).append_right _).trans ?_
        rw [List.cons_append, whole]
      · refine ((((ih hzs).cons middle).trans (.swap ..)).append_left _).trans ?_
        exact List.perm_middle.trans (by rw [whole])

theorem foldlM_insert_perm {run rest ys : List α}
    (h : rest.foldlM (insert before) run = some ys) : ys.Perm (run ++ rest) := by
  induction rest generalizing run with
  | nil =>
    simp only [List.foldlM_nil, pure, Option.some.injEq] at h
    simp [h]
  | cons x rest ih =>
    simp only [List.foldlM_cons, bind, Option.bind_eq_some_iff] at h
    obtain ⟨zs, hzs, h⟩ := h
    refine (ih h).trans ?_
    exact ((insertWithin_perm hzs).append_right rest).trans List.perm_middle.symm

/-- The first run and the rest hold what the list holds. -/
theorem firstRun_perm {xs : List α} {r : List α × List α} (h : firstRun before xs = some r) :
    (r.1 ++ r.2).Perm xs := by
  match xs with
  | [] | [_] =>
    simp only [firstRun, Option.some.injEq] at h
    simp [← h]
  | x :: y :: xs =>
    simp only [firstRun, bind, pure, Option.bind_eq_some_iff] at h
    obtain ⟨b, -, h⟩ := h
    split at h <;> simp only [Option.bind_eq_some_iff, Option.some.injEq] at h <;>
      obtain ⟨q, hq, rfl⟩ := h
    · refine ((List.reverse_perm _).append_right _).trans ?_
      simp [fall_append hq]
    · simp [rise_append hq]

/-- The first run of a list that holds something holds something. -/
theorem length_firstRun_pos {x : α} {xs : List α} {r : List α × List α}
    (h : firstRun before (x :: xs) = some r) : 0 < r.1.length := by
  match xs with
  | [] =>
    simp only [firstRun, Option.some.injEq] at h
    simp [← h]
  | y :: xs =>
    simp only [firstRun, bind, pure, Option.bind_eq_some_iff] at h
    obtain ⟨b, -, h⟩ := h
    split at h <;> simp only [Option.bind_eq_some_iff, Option.some.injEq] at h <;>
      obtain ⟨q, -, rfl⟩ := h <;> simp

/-- A run and the rest hold what the list holds. -/
theorem nextRun_perm {least : Nat} {xs : List α} {r : List α × List α}
    (h : nextRun before least xs = some r) : (r.1 ++ r.2).Perm xs := by
  simp only [nextRun, bind, pure, Option.bind_eq_some_iff, Option.some.injEq] at h
  obtain ⟨q, hq, run, hrun, rfl⟩ := h
  refine ((foldlM_insert_perm hrun).append_right _).trans ?_
  rw [List.append_assoc, List.take_append_drop]
  exact firstRun_perm hq

/-- A run of a list that holds something holds something. -/
theorem length_nextRun_lt {least : Nat} {x : α} {xs : List α} {r : List α × List α}
    (h : nextRun before least (x :: xs) = some r) : r.2.length < (x :: xs).length := by
  have whole := (nextRun_perm h).length_eq
  simp only [nextRun, bind, pure, Option.bind_eq_some_iff, Option.some.injEq] at h
  obtain ⟨q, hq, run, hrun, rfl⟩ := h
  have some := length_firstRun_pos hq
  have grown := (foldlM_insert_perm hrun).length_eq
  rw [List.length_append] at whole grown
  dsimp only at whole ⊢
  omega

end Blockwork.Sorting
