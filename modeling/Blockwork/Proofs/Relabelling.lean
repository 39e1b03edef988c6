import Mathlib.Data.List.Forall2
import Blockwork.Sorting

/-!
# Sorting what is relabelled

Sorting sees no more of its items than the test of what comes before what tells.  So items that are
relabelled are sorted as they were (`Sorting.sort_map`), whether the test is an order or not, and
lists whose items correspond are sorted alike (`Sorting.rel_sort`).
-/

namespace Blockwork.Sorting

variable {α β : Type} {before : α → α → Option Bool} {before' : β → β → Option Bool} {f : α → β}

namespace Merge

/-! ### Places -/

section

variable {p : β → Option Bool} {q : α → Option Bool} (hq : ∀ a, p (f a) = q a)

include hq

theorem passes_map (o : Option α) : passes p (o.map f) = passes q o := by
  cases o with
  | none => rfl
  | some a => exact hq a

theorem stride_map (xs : List α) (n last : Nat) :
    stride p (xs.map f) n last = stride q xs n last := by
  induction n generalizing last with
  | zero => simp [stride]
  | succ n ih =>
      unfold stride
      rw [List.getElem?_map, List.length_map]
      cases xs[2 * last + 1]? with
      | none => rfl
      | some x =>
          simp only [Option.map_some, hq]
          cases q x with
          | none => rfl
          | some r =>
              cases r with
              | true => exact ih _
              | false => rfl

theorem halve_map (middle : Nat → Nat) (xs : List α) (n low width : Nat) :
    halve middle p (xs.map f) n low width = halve middle q xs n low width := by
  induction n generalizing low width with
  | zero => rfl
  | succ n ih =>
      unfold halve
      split
      · rfl
      · simp only [List.getElem?_map, passes_map hq, ih]

theorem Side.count_map (s : Side) (xs : List α) : s.count p (xs.map f) = s.count q xs := by
  unfold Side.count
  simp only [List.head?_map, passes_map hq, List.length_map, stride_map hq, halve_map hq]

end

/-! ### Two runs -/

/-- The outcome of a merge with its items relabelled. -/
def relabel (f : α → β) (r : Option (List α × Nat)) : Option (List β × Nat) :=
  r.map fun q => (q.1.map f, q.2)

theorem push_relabel (items : List α) (r : Option (List α × Nat)) :
    push (items.map f) (relabel f r) = relabel f (push items r) := by
  cases r with
  | none => rfl
  | some q => simp [push, relabel]

theorem relabel_bind {γ : Type} (o : Option γ) (g : γ → Option (List α × Nat)) :
    (o.bind fun c => relabel f (g c)) = relabel f (o.bind g) := by
  cases o <;> rfl

theorem Side.isOver_map (s : Side) (xs ys : List α) :
    s.isOver (xs.map f) (ys.map f) = s.isOver xs ys := by
  cases s <;> simp [Side.isOver]

theorem Side.leftover_map (s : Side) (xs ys : List α) (bar : Nat) :
    some (s.leftover (xs.map f) (ys.map f), bar) = relabel f (some (s.leftover xs ys, bar)) := by
  cases s <;> simp [Side.leftover, relabel]

variable (hf : ∀ a b, before' (f a) (f b) = before a b)

include hf

theorem Side.takesFirst_map (s : Side) (x y : α) :
    s.takesFirst before' (f x) (f y) = s.takesFirst before x y := by
  rw [Side.takesFirst, hf, Side.takesFirst]

theorem Side.takesSecond_map (s : Side) (x y : α) :
    s.takesSecond before' (f x) (f y) = s.takesSecond before x y := by
  rw [Side.takesSecond, Side.takesFirst_map hf, Side.takesSecond]

theorem Side.count_first_map (s : Side) (y : α) (xs : List α) :
    s.count (s.takesFirst before' · (f y)) (xs.map f) = s.count (s.takesFirst before · y) xs :=
  Side.count_map (p := (s.takesFirst before' · (f y))) (fun x => s.takesFirst_map hf x y) s xs

theorem Side.count_second_map (s : Side) (x : α) (ys : List α) :
    s.count (s.takesSecond before' (f x) ·) (ys.map f) = s.count (s.takesSecond before x ·) ys :=
  Side.count_map (p := (s.takesSecond before' (f x) ·)) (fun y => s.takesSecond_map hf x y) s ys

/-- Both ways of merging relabelled runs have the relabelled outcome. -/
theorem merge_map (s : Side) (n : Nat) :
    (∀ bar wins losses, ∀ xs ys : List α,
      singly before' s n bar wins losses (xs.map f) (ys.map f) =
        relabel f (singly before s n bar wins losses xs ys)) ∧
    ∀ bar, ∀ xs ys : List α,
      inBulk before' s n bar (xs.map f) (ys.map f) = relabel f (inBulk before s n bar xs ys) := by
  induction n with
  | zero =>
      refine ⟨fun bar wins losses xs ys => ?_, fun bar xs ys => ?_⟩
      · unfold singly
        exact s.leftover_map xs ys bar
      · unfold inBulk
        exact s.leftover_map xs ys bar
  | succ n ih =>
      obtain ⟨one, bulk⟩ := ih
      refine ⟨fun bar wins losses xs ys => ?_, fun bar xs ys => ?_⟩
      · unfold singly
        rw [s.isOver_map]
        split
        · exact s.leftover_map xs ys bar
        · rcases xs with _ | ⟨x, xs⟩
          · exact s.leftover_map [] ys bar
          · rcases ys with _ | ⟨y, ys⟩
            · exact s.leftover_map (x :: xs) [] bar
            · -- heads are told apart for the test, and put back to relabel what is left
              have alone (a : α) : [f a] = [a].map f := rfl
              simp only [List.map_cons, s.takesFirst_map hf, Option.bind_eq_bind]
              simp only [alone, ← List.map_cons, s.isOver_map, one, bulk, ← apply_ite (relabel f),
                push_relabel, relabel_bind]
      · rcases ys with _ | ⟨y, ys⟩
        · unfold inBulk
          exact s.leftover_map xs [] bar
        · have alone (a : α) : [f a] = [a].map f := rfl
          unfold inBulk
          simp only [List.map_cons, Option.bind_eq_bind, s.count_first_map hf]
          rw [← relabel_bind]
          congr 1
          funext i
          rw [← push_relabel, List.map_take]
          congr 1
          simp only [alone, ← List.map_cons, ← List.map_drop, s.isOver_map, s.leftover_map]
          rw [apply_ite (relabel f)]
          congr 1
          rw [← push_relabel]
          congr 1
          rw [apply_ite (relabel f)]
          congr 1
          rcases xs.drop i with _ | ⟨x, rest⟩
          · exact s.leftover_map [] ys bar
          · simp only [List.map_cons, s.count_second_map hf]
            simp only [alone, ← List.map_cons, ← List.map_take, s.isOver_map, s.leftover_map,
               one, bulk, ← apply_ite (relabel f), push_relabel, relabel_bind]

theorem between_map (bar : Nat) (xs ys : List α) :
    between before' bar (xs.map f) (ys.map f) = relabel f (between before bar xs ys) := by
  unfold between
  simp only [List.length_map]
  split
  · simp only [← List.map_take, ← List.map_drop, (merge_map hf .front _).1, push_relabel]
  · simp only [← List.map_reverse, ← List.map_take, ← List.map_drop, (merge_map hf .back _).1,
      push_relabel]
    simp [relabel, Function.comp_def]

theorem join_map (bar : Nat) (xs ys : List α) :
    join before' bar (xs.map f) (ys.map f) = relabel f (join before bar xs ys) := by
  unfold join
  rw [List.head?_map]
  cases ys.head? with
  | none => simp [relabel]
  | some y =>
      simp only [Option.map_some, Option.bind_eq_bind, Side.count_first_map hf]
      rw [← relabel_bind]
      congr 1
      funext i
      rw [← List.map_drop, List.getLast?_map]
      cases (xs.drop i).getLast? with
      | none => simp [relabel]
      | some x =>
          have behind : Side.back.count (fun z => (before' z (f x)).map (!·)) (ys.reverse.map f) =
              Side.back.count (fun z => (before z x).map (!·)) ys.reverse :=
            Side.count_map (fun a => by rw [hf]) Side.back ys.reverse
          simp only [Option.map_some, ← List.map_reverse, behind]
          rw [← relabel_bind]
          congr 1
          funext k
          rw [List.length_map, ← List.map_append]
          rw [apply_ite (relabel f)]
          congr 1
          rw [← push_relabel, ← List.map_take, ← List.map_take, ← List.map_drop, between_map hf]
          congr 1
          simp [relabel, Function.comp_def]

end Merge

/-! ### Runs -/

section

variable (hf : ∀ a b, before' (f a) (f b) = before a b)

include hf

theorem rise_map (last : α) (xs : List α) : rise before' (f last) (xs.map f) =
    (rise before last xs).map (Prod.map (List.map f) (List.map f)) := by
  induction xs generalizing last with
  | nil => rfl
  | cons x xs ih =>
      simp only [List.map_cons, rise, hf, ih]
      cases before x last with
      | none => rfl
      | some b =>
          cases b with
          | true => rfl
          | false => cases rise before x xs <;> rfl

theorem fall_map (last : α) (xs : List α) : fall before' (f last) (xs.map f) =
    (fall before last xs).map (Prod.map (List.map f) (List.map f)) := by
  induction xs generalizing last with
  | nil => rfl
  | cons x xs ih =>
      simp only [List.map_cons, fall, hf, ih]
      cases before x last with
      | none => rfl
      | some b =>
          cases b with
          | true => cases fall before x xs <;> rfl
          | false => rfl

theorem insertWithin_map (x : α) (n : Nat) (xs : List α) :
    insertWithin before' (f x) n (xs.map f) = (insertWithin before x n xs).map (List.map f) := by
  induction n generalizing xs with
  | zero => rfl
  | succ n ih =>
      unfold insertWithin
      rw [List.length_map, ← List.map_drop, ← List.map_take]
      rcases xs.drop (xs.length / 2) with _ | ⟨middle, later⟩
      · rfl
      · simp only [List.map_cons, hf, ih]
        cases before x middle with
        | none => rfl
        | some b =>
            cases b with
            | true => cases insertWithin before x n (xs.take (xs.length / 2)) <;> simp
            | false => cases insertWithin before x n later <;> simp

theorem firstRun_map (xs : List α) : firstRun before' (xs.map f) =
    (firstRun before xs).map (Prod.map (List.map f) (List.map f)) := by
  rcases xs with _ | ⟨x, _ | ⟨y, xs⟩⟩
  · rfl
  · rfl
  · simp only [List.map_cons, firstRun, hf, rise_map hf, fall_map hf]
    cases before y x with
    | none => rfl
    | some b =>
        cases b with
        | true => cases fall before y xs <;> simp
        | false => cases rise before y xs <;> simp

theorem foldlM_insert_map (rest run : List α) : (rest.map f).foldlM (insert before') (run.map f) =
    (rest.foldlM (insert before) run).map (List.map f) := by
  induction rest generalizing run with
  | nil => rfl
  | cons x rest ih =>
      simp only [List.map_cons, List.foldlM_cons, insert, List.length_map, insertWithin_map hf]
      cases insertWithin before x run.length run with
      | none => rfl
      | some ys => exact ih ys

theorem nextRun_map (least : Nat) (xs : List α) : nextRun before' least (xs.map f) =
    (nextRun before least xs).map (Prod.map (List.map f) (List.map f)) := by
  simp only [nextRun, firstRun_map hf]
  cases firstRun before xs with
  | none => rfl
  | some r =>
      simp only [Option.map_some, Option.bind_eq_bind, Option.bind_some, Prod.map_fst, Prod.map_snd,
        List.length_map, ← List.map_take, ← List.map_drop, foldlM_insert_map hf]
      cases (r.2.take (least - r.1.length)).foldlM (insert before) r.1 <;> rfl

/-! ### The pile -/

/-- A run on the pile with its items relabelled. -/
def Piled.relabel (f : α → β) (p : Piled α) : Piled β := ⟨p.items.map f, p.start, p.depth⟩

omit hf in
theorem Piled.depthBefore_relabel (p : Piled α) (length next : Nat) :
    (p.relabel f).depthBefore length next = p.depthBefore length next := by
  simp [depthBefore, relabel]

theorem reduce_map (depth bar : Nat) (top : Piled α) (pile : List (Piled α)) :
    reduce before' depth bar (top.relabel f) (pile.map (·.relabel f)) =
      (reduce before depth bar top pile).map fun r =>
        (r.1.relabel f, r.2.1.map (·.relabel f), r.2.2) := by
  induction pile generalizing bar top with
  | nil => rfl
  | cons below rest ih =>
      unfold reduce
      simp only [List.map_cons, Piled.relabel, Merge.join_map hf]
      split
      · cases Merge.join before bar below.items top.items with
        | none => rfl
        | some merged => exact ih merged.2 { below with items := merged.1 }
      · rfl

theorem makeReady_map (length bar next : Nat) (pile : List (Piled α)) :
    makeReady before' length bar next (pile.map (·.relabel f)) =
      (makeReady before length bar next pile).map fun r => (r.1.map (·.relabel f), r.2) := by
  cases pile with
  | nil => rfl
  | cons top pile =>
      simp only [List.map_cons, makeReady, Piled.depthBefore_relabel, reduce_map hf]
      cases reduce before (top.depthBefore length next) bar top pile <;> rfl

omit hf in
theorem pileUp_cons (length least bar : Nat) (pile : List (Piled α)) (x : α) (xs : List α) :
    pileUp before length least bar pile (x :: xs) =
      (nextRun before least (x :: xs)).bind fun cut =>
        (makeReady before length bar cut.1.length pile).bind fun ready =>
          pileUp before length least ready.2 (⟨cut.1, length - (xs.length + 1), 0⟩ :: ready.1)
            cut.2 := by
  rw [pileUp]
  split
  · rename_i hcut
    rw [hcut]
    rfl
  · rename_i cut hcut
    rw [hcut, Option.bind_some]
    cases makeReady before length bar cut.1.length pile <;> rfl

theorem pileUp_map (length least bar : Nat) (pile : List (Piled α)) (xs : List α) :
    pileUp before' length least bar (pile.map (·.relabel f)) (xs.map f) =
      (pileUp before length least bar pile xs).map fun r => (r.1.map (·.relabel f), r.2) := by
  fun_induction pileUp before length least bar pile xs with
  | case1 bar pile =>
      unfold pileUp
      rfl
  | case2 bar pile x xs hnone =>
      rw [List.map_cons, pileUp_cons, ← List.map_cons, nextRun_map hf, hnone]
      rfl
  | case3 bar pile x xs cut hcut hnone =>
      rw [List.map_cons, pileUp_cons, ← List.map_cons, nextRun_map hf, hcut]
      simp only [Option.map_some, Option.bind_some, Prod.map_fst, List.length_map,
        makeReady_map hf, hnone]
      rfl
  | case4 bar pile x xs cut hcut ready hready ih =>
      rw [List.map_cons, pileUp_cons, ← List.map_cons, nextRun_map hf, hcut]
      simp only [Option.map_some, Option.bind_some, Prod.map_fst, List.length_map,
        makeReady_map hf, hready]
      exact ih

theorem collapse_map (bar : Nat) (top : List α) (runs : List (List α)) :
    collapse before' bar (top.map f) (runs.map (List.map f)) =
      (collapse before bar top runs).map (List.map f) := by
  fun_induction collapse before bar top runs with
  | case1 bar top =>
      unfold collapse
      rfl
  | case2 bar top below =>
      rw [List.map_cons, List.map_nil, collapse, Merge.join_map hf]
      simp [Merge.relabel, Function.comp_def]
  | case3 bar top below third rest hlt hnone =>
      rw [List.map_cons, List.map_cons, collapse]
      simp [Merge.join_map hf, hlt, hnone, Merge.relabel]
  | case4 bar top below third rest hlt merged hm ih =>
      rw [List.map_cons, List.map_cons, collapse]
      simp only [List.length_map, if_pos hlt, Merge.join_map hf, hm]
      exact ih
  | case5 bar top below third rest hlt hnone =>
      rw [List.map_cons, List.map_cons, collapse]
      simp [Merge.join_map hf, hlt, hnone, Merge.relabel]
  | case6 bar top below third rest hlt merged hm ih =>
      rw [List.map_cons, List.map_cons, collapse]
      simp only [List.length_map, if_neg hlt, Merge.join_map hf, hm]
      exact ih

/-! ### Sorting -/

/-- **What is relabelled is sorted as it was.** -/
theorem sort_map (xs : List α) :
    sort before' (xs.map f) = (sort before xs).map (List.map f) := by
  unfold sort
  have hpile := pileUp_map hf xs.length (leastRun 0 xs.length) Merge.worthwhile [] xs
  rw [List.map_nil] at hpile
  rw [List.length_map, hpile]
  rcases pileUp before xs.length (leastRun 0 xs.length) Merge.worthwhile [] xs with _ | ⟨pile, bar⟩
  · rfl
  · cases pile with
    | nil => rfl
    | cons top pile =>
        have hcollapse := collapse_map hf bar top.items (pile.map (·.items))
        simpa [Piled.relabel, Function.comp_def] using hcollapse

end

/-- Lists whose items correspond are sorted alike, where the tests say the same of items that
do. -/
theorem rel_sort {Q : α → β → Prop} {xs : List α} {ys : List β}
    (hq : ∀ a a' b b', Q a b → Q a' b' → before a a' = before' b b') (h : List.Forall₂ Q xs ys) :
    Option.Rel (List.Forall₂ Q) (sort before xs) (sort before' ys) := by
  -- the pairs of corresponding items are sorted once, and each list is seen through them
  obtain ⟨zs, rfl, rfl⟩ : ∃ zs : List {p : α × β // Q p.1 p.2},
      xs = zs.map (·.1.1) ∧ ys = zs.map (·.1.2) := by
    induction h with
    | nil => exact ⟨[], rfl, rfl⟩
    | cons hxy _ ih =>
        obtain ⟨zs, rfl, rfl⟩ := ih
        exact ⟨⟨(_, _), hxy⟩ :: zs, rfl, rfl⟩
  let both (p q : {p : α × β // Q p.1 p.2}) : Option Bool := before p.1.1 q.1.1
  have hleft : sort before (zs.map (·.1.1)) = (sort both zs).map (List.map (·.1.1)) :=
    sort_map (fun _ _ => rfl) zs
  have hright : sort before' (zs.map (·.1.2)) = (sort both zs).map (List.map (·.1.2)) :=
    sort_map (fun p q => (hq _ _ _ _ p.2 q.2).symm) zs
  rw [hleft, hright]
  cases sort both zs with
  | none => exact .none
  | some sorted =>
      refine .some ?_
      rw [List.forall₂_map_left_iff, List.forall₂_map_right_iff, List.forall₂_same]
      exact fun p _ => p.2

end Blockwork.Sorting
