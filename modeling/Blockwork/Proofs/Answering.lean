import Blockwork.Sorting

/-!
# Answers of sorting

Sorting has an answer as soon as any two of the items can be compared (`Sorting.answers_sort`), be
the test an order or not: wherever there is none, two items have been compared that cannot be.
-/

namespace Blockwork.Sorting

variable {α : Type}

/-- Whether a test answers for any two items with a property. -/
def Answers (before : α → α → Option Bool) (D : α → Prop) : Prop :=
  ∀ a b, D a → D b → (before a b).isSome

theorem isSome_bind {β γ : Type} {o : Option β} {f : β → Option γ} (ho : o.isSome)
    (hf : ∀ b, o = some b → (f b).isSome) : (o >>= f).isSome := by
  obtain ⟨b, rfl⟩ := Option.isSome_iff_exists.mp ho
  exact hf b rfl

namespace Merge

variable {before : α → α → Option Bool} {D : α → Prop} {p : α → Option Bool} {xs ys : List α}

theorem answers_stride (h : ∀ x ∈ xs, (p x).isSome) (n last : Nat) :
    (stride p xs n last).isSome := by
  induction n generalizing last with
  | zero => rfl
  | succ n ih =>
      unfold stride
      split
      · rfl
      · rename_i x hx
        refine isSome_bind (h x (List.mem_of_getElem? hx)) fun b _ => ?_
        split
        · exact ih _
        · rfl

theorem answers_passes (h : ∀ x ∈ xs, (p x).isSome) {o : Option α} (ho : ∀ x ∈ o, x ∈ xs) :
    (passes p o).isSome := by
  cases o with
  | none => rfl
  | some x => exact h x (ho x rfl)

theorem answers_halve {middle : Nat → Nat} (h : ∀ x ∈ xs, (p x).isSome) (n low width : Nat) :
    (halve middle p xs n low width).isSome := by
  induction n generalizing low width with
  | zero => rfl
  | succ n ih =>
      unfold halve
      split
      · rfl
      · refine isSome_bind (answers_passes h fun x hx => List.mem_of_getElem? hx) fun b _ => ?_
        split
        · exact ih _ _
        · exact ih _ _

theorem answers_count (s : Side) (h : ∀ x ∈ xs, (p x).isSome) : (s.count p xs).isSome := by
  unfold Side.count
  refine isSome_bind (answers_passes h fun x hx => List.mem_of_mem_head? hx) fun b _ => ?_
  split
  · exact isSome_bind (answers_stride h _ _) fun r _ => answers_halve h _ _ _
  · rfl

theorem answers_push {items : List α} {r : Option (List α × Nat)} (h : r.isSome) :
    (push items r).isSome := by
  rw [push, Option.isSome_map]
  exact h

theorem answers_takesFirst (hb : Answers before D) (s : Side) {x y : α} (hx : D x) (hy : D y) :
    (s.takesFirst before x y).isSome := by
  rw [Side.takesFirst, Option.isSome_map]
  exact hb y x hy hx

/-- Whether a way of merging has an answer for any two runs of items with a property. -/
def AnswersRuns (D : α → Prop) (f : List α → List α → Option (List α × Nat)) : Prop :=
  ∀ xs ys, (∀ x ∈ xs, D x) → (∀ y ∈ ys, D y) → (f xs ys).isSome

section

variable {s : Side} {n : Nat}
  (one : ∀ bar wins losses, AnswersRuns D (singly before s n bar wins losses))
  (bulk : ∀ bar, AnswersRuns D (inBulk before s n bar))

include one bulk

theorem answers_singly (hb : Answers before D) (bar wins losses : Nat) :
    AnswersRuns D (singly before s (n + 1) bar wins losses) := by
  intro xs ys hxs hys
  unfold singly
  split
  · rfl
  · split
    · rename_i x xs y ys _
      obtain ⟨hx, hxs'⟩ := List.forall_mem_cons.mp hxs
      obtain ⟨hy, hys'⟩ := List.forall_mem_cons.mp hys
      refine isSome_bind (answers_takesFirst hb s hx hy) fun b _ => ?_
      split
      · refine answers_push ?_
        split
        · exact one _ _ _ _ _ hxs' hys
        · exact bulk _ _ _ hxs' hys
      · refine answers_push ?_
        split
        · exact one _ _ _ _ _ hxs hys'
        · exact bulk _ _ _ hxs hys'
    · rfl

theorem answers_inBulk (hb : Answers before D) (bar : Nat) :
    AnswersRuns D (inBulk before s (n + 1) bar) := by
  intro xs ys hxs hys
  rcases ys with _ | ⟨y, ys⟩
  · unfold inBulk
    rfl
  · obtain ⟨hy, hys'⟩ := List.forall_mem_cons.mp hys
    unfold inBulk
    refine isSome_bind (answers_count s fun x hx => answers_takesFirst hb s (hxs x hx) hy)
      fun i _ => answers_push ?_
    split
    · rfl
    · refine answers_push ?_
      split
      · rfl
      · split
        · rfl
        · rename_i x rest he
          have hrest : ∀ z ∈ x :: rest, D z := fun z hz => hxs z (List.mem_of_mem_drop (he ▸ hz))
          obtain ⟨hx, hrest'⟩ := List.forall_mem_cons.mp hrest
          refine isSome_bind (answers_count s fun z hz => ?_) fun j _ => answers_push ?_
          · rw [Side.takesSecond, Option.isSome_map]
            exact answers_takesFirst hb s hx (hys' z hz)
          · have hdrop : ∀ z ∈ ys.drop j, D z := fun z hz => hys' z (List.mem_of_mem_drop hz)
            split
            · rfl
            · refine answers_push ?_
              split
              · rfl
              · split
                · exact bulk _ _ _ hrest' hdrop
                · exact one _ _ _ _ _ hrest' hdrop

end

/-- Both ways of merging have an answer. -/
theorem answers_merge (hb : Answers before D) (s : Side) (n : Nat) :
    (∀ bar wins losses, AnswersRuns D (singly before s n bar wins losses)) ∧
      ∀ bar, AnswersRuns D (inBulk before s n bar) := by
  induction n with
  | zero =>
      constructor
      · intro bar wins losses xs ys _ _
        unfold singly
        rfl
      · intro bar xs ys _ _
        unfold inBulk
        rfl
  | succ n ih =>
      obtain ⟨one, bulk⟩ := ih
      exact ⟨answers_singly one bulk hb, answers_inBulk one bulk hb⟩

theorem answers_between (hb : Answers before D) (bar : Nat) (hxs : ∀ x ∈ xs, D x)
    (hys : ∀ y ∈ ys, D y) : (between before bar xs ys).isSome := by
  unfold between
  split
  · exact answers_push ((answers_merge hb .front _).1 _ _ _ _ _ hxs
      fun y hy => hys y (List.mem_of_mem_drop hy))
  · rw [Option.isSome_map]
    exact answers_push ((answers_merge hb .back _).1 _ _ _ _ _
      (fun x hx => hxs x (List.mem_reverse.mp (List.mem_of_mem_drop hx)))
      fun y hy => hys y (List.mem_reverse.mp hy))

theorem answers_join (hb : Answers before D) (bar : Nat) (hxs : ∀ x ∈ xs, D x)
    (hys : ∀ y ∈ ys, D y) : (join before bar xs ys).isSome := by
  unfold join
  split
  · rfl
  · rename_i y hy
    refine isSome_bind (answers_count _ fun x hx =>
      answers_takesFirst hb _ (hxs x hx) (hys y (List.mem_of_mem_head? hy))) fun i _ => ?_
    split
    · rfl
    · rename_i x hx
      have hDx : D x := hxs x (List.mem_of_mem_drop (List.mem_of_getLast? hx))
      refine isSome_bind (answers_count _ fun z hz => ?_) fun k _ => ?_
      · rw [Option.isSome_map]
        exact hb z x (hys z (List.mem_reverse.mp hz)) hDx
      · dsimp only
        split
        · rfl
        · refine answers_push ?_
          rw [Option.isSome_map]
          exact answers_between hb _ (fun z hz => hxs z (List.mem_of_mem_drop hz))
            fun z hz => hys z (List.mem_of_mem_take hz)

end Merge

variable {before : α → α → Option Bool} {D : α → Prop}

theorem answers_rise (hb : Answers before D) {last : α} {xs : List α} (hl : D last)
    (h : ∀ x ∈ xs, D x) : (rise before last xs).isSome ∧ (fall before last xs).isSome := by
  induction xs generalizing last with
  | nil => exact ⟨rfl, rfl⟩
  | cons x xs ih =>
      have hx := h x List.mem_cons_self
      obtain ⟨hrise, hfall⟩ := ih hx fun z hz => h z (List.mem_cons_of_mem x hz)
      unfold rise fall
      constructor
      · refine isSome_bind (hb x last hx hl) fun b _ => ?_
        split
        · rfl
        · exact isSome_bind hrise fun _ _ => rfl
      · refine isSome_bind (hb x last hx hl) fun b _ => ?_
        split
        · exact isSome_bind hfall fun _ _ => rfl
        · rfl

theorem answers_insertWithin (hb : Answers before D) {x : α} (hx : D x) {n : Nat} {xs : List α}
    (h : ∀ z ∈ xs, D z) : (insertWithin before x n xs).isSome := by
  induction n generalizing xs with
  | zero => rfl
  | succ n ih =>
      unfold insertWithin
      split
      · rfl
      · rename_i middle later he
        have hlate : ∀ z ∈ middle :: later, D z := fun z hz => h z (List.mem_of_mem_drop (he ▸ hz))
        refine isSome_bind (hb x middle hx (hlate middle List.mem_cons_self)) fun b _ => ?_
        split
        · exact isSome_bind (ih fun z hz => h z (List.mem_of_mem_take hz)) fun _ _ => rfl
        · exact isSome_bind (ih fun z hz => hlate z (List.mem_cons_of_mem middle hz))
            fun _ _ => rfl

theorem answers_firstRun (hb : Answers before D) {xs : List α} (h : ∀ x ∈ xs, D x) :
    (firstRun before xs).isSome := by
  match xs with
  | [] => rfl
  | [x] => rfl
  | x :: y :: xs =>
      have hy := h y (List.mem_cons_of_mem x List.mem_cons_self)
      have hxs : ∀ z ∈ xs, D z := fun z hz =>
        h z (List.mem_cons_of_mem x (List.mem_cons_of_mem y hz))
      have hruns := answers_rise hb hy hxs
      unfold firstRun
      refine isSome_bind (hb y x hy (h x List.mem_cons_self)) fun b _ => ?_
      split
      · exact isSome_bind hruns.2 fun _ _ => rfl
      · exact isSome_bind hruns.1 fun _ _ => rfl

theorem answers_foldlM_insert (hb : Answers before D) {rest run : List α}
    (hrest : ∀ x ∈ rest, D x) (h : ∀ x ∈ run, D x) :
    (rest.foldlM (insert before) run).isSome := by
  induction rest generalizing run with
  | nil => rfl
  | cons x rest ih =>
      have hx := hrest x List.mem_cons_self
      rw [List.foldlM_cons]
      refine isSome_bind (answers_insertWithin hb hx h : (insert before run x).isSome)
        fun zs hzs => ?_
      refine ih (fun z hz => hrest z (List.mem_cons_of_mem x hz)) fun z hz => ?_
      rcases List.mem_cons.mp ((insertWithin_perm hzs).mem_iff.mp hz) with rfl | hz
      · exact hx
      · exact h z hz

theorem answers_nextRun (hb : Answers before D) (least : Nat) {xs : List α} (h : ∀ x ∈ xs, D x) :
    (nextRun before least xs).isSome := by
  unfold nextRun
  refine isSome_bind (answers_firstRun hb h) fun r hr => ?_
  have hmem := fun z => (firstRun_perm hr).mem_iff (a := z)
  refine isSome_bind (answers_foldlM_insert hb
    (fun z hz => h z ((hmem z).mp (List.mem_append_right _ (List.mem_of_mem_take hz))))
    fun z hz => h z ((hmem z).mp (List.mem_append_left _ hz))) fun _ _ => rfl

theorem answers_reduce (hb : Answers before D) {depth bar : Nat} {top : Piled α}
    {pile : List (Piled α)} (ht : ∀ z ∈ top.items, D z) (h : ∀ z ∈ itemsOf pile, D z) :
    (reduce before depth bar top pile).isSome := by
  induction pile generalizing bar top with
  | nil => rfl
  | cons below rest ih =>
      unfold reduce
      rw [itemsOf, List.flatMap_cons] at h
      have hbelow : ∀ z ∈ below.items, D z := fun z hz => h z (List.mem_append_left _ hz)
      split
      · refine isSome_bind (Merge.answers_join hb bar hbelow ht) fun merged hm => ?_
        refine ih (fun z hz => ?_) fun z hz => h z (List.mem_append_right _ hz)
        exact (List.mem_append.mp ((Merge.join_perm hm).mem_iff.mp hz)).elim (hbelow z) (ht z)
      · rfl

theorem answers_makeReady (hb : Answers before D) (length bar next : Nat)
    {pile : List (Piled α)} (h : ∀ z ∈ itemsOf pile, D z) :
    (makeReady before length bar next pile).isSome := by
  cases pile with
  | nil => rfl
  | cons top pile =>
      rw [itemsOf, List.flatMap_cons] at h
      exact isSome_bind (answers_reduce hb (fun z hz => h z (List.mem_append_left _ hz))
        fun z hz => h z (List.mem_append_right _ hz)) fun _ _ => rfl

theorem answers_pileUp (hb : Answers before D) {length least bar : Nat} {pile : List (Piled α)}
    {xs : List α} (hp : ∀ z ∈ itemsOf pile, D z) (h : ∀ x ∈ xs, D x) :
    (pileUp before length least bar pile xs).isSome := by
  fun_induction pileUp before length least bar pile xs with
  | case1 bar pile => rfl
  | case2 bar pile x xs hnone =>
      have hsome := answers_nextRun hb least h
      rw [hnone] at hsome
      cases hsome
  | case3 bar pile x xs cut hcut hnone =>
      have hsome := answers_makeReady hb length bar cut.1.length hp
      rw [hnone] at hsome
      cases hsome
  | case4 bar pile x xs cut hcut ready hready ih =>
      have hmem := fun z => (nextRun_perm hcut).mem_iff (a := z)
      refine ih (fun z hz => ?_) fun z hz => h z ((hmem z).mp (List.mem_append_right _ hz))
      rw [itemsOf, List.flatMap_cons] at hz
      rcases List.mem_append.mp hz with hz | hz
      · exact h z ((hmem z).mp (List.mem_append_left _ hz))
      · exact hp z ((makeReady_perm hready).mem_iff.mp hz)

theorem answers_collapse (hb : Answers before D) {bar : Nat} {top : List α}
    {runs : List (List α)} (ht : ∀ z ∈ top, D z) (h : ∀ xs ∈ runs, ∀ z ∈ xs, D z) :
    (collapse before bar top runs).isSome := by
  have hjoin : ∀ {bar xs ys r}, Merge.join before bar xs ys = some r → (∀ z ∈ xs, D z) →
      (∀ z ∈ ys, D z) → ∀ z ∈ r.1, D z := fun hr hxs hys z hz =>
    (List.mem_append.mp ((Merge.join_perm hr).mem_iff.mp hz)).elim (hxs z) (hys z)
  fun_induction collapse before bar top runs with
  | case1 => rfl
  | case2 bar top below =>
      rw [Option.isSome_map]
      exact Merge.answers_join hb bar (h below List.mem_cons_self) ht
  | case3 bar top below third rest hlt hnone =>
      have hsome := Merge.answers_join hb bar
        (h third (List.mem_cons_of_mem below List.mem_cons_self)) (h below List.mem_cons_self)
      rw [hnone] at hsome
      cases hsome
  | case4 bar top below third rest hlt merged hm ih =>
      refine ih ht fun xs hxs => ?_
      rcases List.mem_cons.mp hxs with rfl | hxs
      · exact hjoin hm (h third (List.mem_cons_of_mem below List.mem_cons_self))
          (h below List.mem_cons_self)
      · exact h xs (List.mem_cons_of_mem below (List.mem_cons_of_mem third hxs))
  | case5 bar top below third rest hlt hnone =>
      have hsome := Merge.answers_join hb bar (h below List.mem_cons_self) ht
      rw [hnone] at hsome
      cases hsome
  | case6 bar top below third rest hlt merged hm ih =>
      exact ih (hjoin hm (h below List.mem_cons_self) ht)
        fun xs hxs => h xs (List.mem_cons_of_mem below hxs)

/-- Sorting has an answer where any two items can be compared. -/
theorem answers_sort (hb : Answers before D) {xs : List α} (h : ∀ x ∈ xs, D x) :
    (sort before xs).isSome := by
  unfold sort
  refine isSome_bind (answers_pileUp hb (fun z hz => by cases hz) h) fun r hr => ?_
  have hmem := fun z => (pileUp_perm hr).mem_iff (a := z)
  obtain ⟨pile, bar⟩ := r
  cases pile with
  | nil => rfl
  | cons top pile =>
      have hall : ∀ z ∈ itemsOf (top :: pile), D z := fun z hz => h z ((hmem z).mp hz)
      rw [itemsOf, List.flatMap_cons] at hall
      refine answers_collapse hb (fun z hz => hall z (List.mem_append_left _ hz)) fun ys hys => ?_
      obtain ⟨p, hp, rfl⟩ := List.mem_map.mp hys
      exact fun z hz => hall z (List.mem_append_right _ (List.mem_flatMap.mpr ⟨p, hp, hz⟩))

end Blockwork.Sorting
