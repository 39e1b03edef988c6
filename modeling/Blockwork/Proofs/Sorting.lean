import Blockwork.Proofs.Merging
import Blockwork.Sorting

/-!
# Sorted lists

Where the test of what comes before what is an order, sorting has an answer, in which no item comes
before an earlier one (`Sorting.exists_sort`).  Every run is in order, those that are cut off
(`Sorting.exists_nextRun`) as well as those on the pile, and they stay so when they are merged.
-/

namespace Blockwork.Sorting

variable {α : Type} {before : α → α → Option Bool} {le : α → α → Prop} {D : α → Prop}

open Merge (Ordered sorts_join)

/-! ### Runs -/

theorem Compares.flip (hc : Compares before le D) {a b : α} (ha : D a) (hb : D b)
    (h : ¬ le a b) : le b a := (hc.total ha hb).resolve_left h

theorem Merge.Ordered.nil {R : α → α → Prop} : Ordered R D [] :=
  ⟨(fun _ h => by cases h), List.Pairwise.nil⟩

theorem Merge.Ordered.singleton {R : α → α → Prop} {x : α} (hx : D x) : Ordered R D [x] :=
  ⟨fun _ h => List.mem_singleton.mp h ▸ hx, List.pairwise_singleton R x⟩

/-- An item may stand before a run whose first item it comes before. -/
theorem Merge.Ordered.cons {R : α → α → Prop} {a b : α} {xs : List α} (h : Ordered R D (b :: xs))
    (ht : ∀ {a b c}, D a → D b → D c → R a b → R b c → R a c) (ha : D a) (hab : R a b) :
    Ordered R D (a :: b :: xs) := by
  refine ⟨?_, List.pairwise_cons.mpr ⟨fun c hc => ?_, h.rises⟩⟩
  · intro c hc
    rcases List.mem_cons.mp hc with rfl | hc
    · exact ha
    · exact h.within c hc
  · rcases List.mem_cons.mp hc with rfl | hc'
    · exact hab
    · exact ht ha (h.within b List.mem_cons_self) (h.within c hc) hab
        (List.rel_of_pairwise_cons h.rises hc')

/-- In a run that is in order, what is before an item may take one more that comes before it. -/
theorem Merge.Ordered.insert_front {R : α → α → Prop} {x middle : α} {front back ys : List α}
    (h : Ordered R D (front ++ middle :: back))
    (ht : ∀ {a b c}, D a → D b → D c → R a b → R b c → R a c) (hx : D x) (hxm : R x middle)
    (hys : Ordered R D ys) (hperm : ys.Perm (x :: front)) :
    Ordered R D (ys ++ middle :: back) := by
  obtain ⟨-, hback, hcross⟩ := List.pairwise_append.mp h.rises
  have hwithin : ∀ z ∈ middle :: back, D z := fun z hz => h.within z (List.mem_append_right _ hz)
  refine ⟨List.forall_mem_append.mpr ⟨hys.within, hwithin⟩,
    List.pairwise_append.mpr ⟨hys.rises, hback, fun a ha c hc => ?_⟩⟩
  rcases List.mem_cons.mp (hperm.mem_iff.mp ha) with rfl | ha'
  · rcases List.mem_cons.mp hc with rfl | hc'
    · exact hxm
    · exact ht hx (hwithin middle List.mem_cons_self) (hwithin c hc) hxm
        (List.rel_of_pairwise_cons hback hc')
  · exact hcross a ha' c hc

/-- What is behind an item may take one more that the item comes before. -/
theorem Merge.Ordered.insert_back {R : α → α → Prop} {x middle : α} {front back ys : List α}
    (h : Ordered R D (front ++ middle :: back))
    (ht : ∀ {a b c}, D a → D b → D c → R a b → R b c → R a c) (hmx : R middle x)
    (hys : Ordered R D ys) (hperm : ys.Perm (x :: back)) :
    Ordered R D (front ++ middle :: ys) := by
  obtain ⟨hfront, hback, hcross⟩ := List.pairwise_append.mp h.rises
  have hm : D middle := h.within middle (List.mem_append_right _ List.mem_cons_self)
  have hbehind : ∀ c ∈ ys, R middle c := fun c hc => by
    rcases List.mem_cons.mp (hperm.mem_iff.mp hc) with rfl | hc'
    · exact hmx
    · exact List.rel_of_pairwise_cons hback hc'
  have hwithin : ∀ z ∈ front, D z := fun z hz => h.within z (List.mem_append_left _ hz)
  refine ⟨List.forall_mem_append.mpr ⟨hwithin, List.forall_mem_cons.mpr ⟨hm, hys.within⟩⟩,
    List.pairwise_append.mpr ⟨hfront, List.pairwise_cons.mpr ⟨hbehind, hys.rises⟩,
      fun a ha c hc => ?_⟩⟩
  have ham := hcross a ha middle List.mem_cons_self
  rcases List.mem_cons.mp hc with rfl | hc'
  · exact ham
  · exact ht (hwithin a ha) hm (hys.within c hc') ham (hbehind c hc')

theorem exists_rise (hc : Compares before le D) {last : α} {xs : List α} (hl : D last)
    (h : ∀ x ∈ xs, D x) :
    ∃ r, rise before last xs = some r ∧ Ordered le D (last :: r.1) := by
  induction xs generalizing last with
  | nil => exact ⟨_, rfl, Ordered.singleton hl⟩
  | cons x xs ih =>
      have hx := h x List.mem_cons_self
      obtain ⟨b, hb, hle⟩ := hc.test hx hl
      unfold rise
      simp only [hb, Option.bind_eq_bind, Option.bind_some]
      cases b with
      | true => exact ⟨_, rfl, Ordered.singleton hl⟩
      | false =>
          obtain ⟨r, hr, ho⟩ := ih hx fun y hy => h y (List.mem_cons_of_mem x hy)
          have hlx : le last x := by
            by_contra hn
            cases hle.mpr hn
          simp only [hr, Option.bind_some]
          exact ⟨_, rfl, ho.cons hc.trans hl hlx⟩

theorem exists_fall (hc : Compares before le D) {last : α} {xs : List α} (hl : D last)
    (h : ∀ x ∈ xs, D x) :
    ∃ r, fall before last xs = some r ∧ Ordered (fun a b => le b a) D (last :: r.1) := by
  induction xs generalizing last with
  | nil => exact ⟨_, rfl, Ordered.singleton hl⟩
  | cons x xs ih =>
      have hx := h x List.mem_cons_self
      obtain ⟨b, hb, hle⟩ := hc.test hx hl
      unfold fall
      simp only [hb, Option.bind_eq_bind, Option.bind_some]
      cases b with
      | false => exact ⟨_, rfl, Ordered.singleton hl⟩
      | true =>
          obtain ⟨r, hr, ho⟩ := ih hx fun y hy => h y (List.mem_cons_of_mem x hy)
          simp only [hr, Option.bind_some]
          exact ⟨_, rfl, ho.cons (fun ha hb hd hab hbc => hc.trans hd hb ha hbc hab) hl
            (hc.flip hl hx (hle.mp rfl))⟩

/-- The first run is in order: a run that falls is turned round. -/
theorem exists_firstRun (hc : Compares before le D) {xs : List α} (h : ∀ x ∈ xs, D x) :
    ∃ r, firstRun before xs = some r ∧ Ordered le D r.1 := by
  match xs with
  | [] => exact ⟨_, rfl, Ordered.nil⟩
  | [x] => exact ⟨_, rfl, Ordered.singleton (h x List.mem_cons_self)⟩
  | x :: y :: xs =>
      have hx := h x List.mem_cons_self
      have hy := h y (List.mem_cons_of_mem x List.mem_cons_self)
      have hxs : ∀ z ∈ xs, D z := fun z hz =>
        h z (List.mem_cons_of_mem x (List.mem_cons_of_mem y hz))
      obtain ⟨b, hb, hle⟩ := hc.test hy hx
      unfold firstRun
      simp only [hb, Option.bind_eq_bind, Option.bind_some]
      cases b with
      | true =>
          obtain ⟨r, hr, ho⟩ := exists_fall hc hy hxs
          simp only [hr, Option.bind_some]
          have hfalls : Ordered (fun a b => le b a) D (x :: y :: r.1) :=
            ho.cons (fun ha hb hd hab hbc => hc.trans hd hb ha hbc hab) hx
              (hc.flip hx hy (hle.mp rfl))
          exact ⟨_, rfl, fun z hz => hfalls.within z (List.mem_reverse.mp hz),
            List.pairwise_reverse.mpr hfalls.rises⟩
      | false =>
          obtain ⟨r, hr, ho⟩ := exists_rise hc hy hxs
          simp only [hr, Option.bind_some]
          refine ⟨_, rfl, ho.cons hc.trans hx ?_⟩
          by_contra hn
          cases hle.mpr hn

/-- An item is inserted in its place: halving leaves an item that is later on one side of it, and
one that is not on the other. -/
theorem exists_insertWithin (hc : Compares before le D) {x : α} (hx : D x) {n : Nat} {xs : List α}
    (hn : xs.length ≤ n) (h : Ordered le D xs) :
    ∃ ys, insertWithin before x n xs = some ys ∧ Ordered le D ys := by
  induction n generalizing xs with
  | zero =>
      obtain rfl := List.length_eq_zero_iff.mp (Nat.le_zero.mp hn)
      exact ⟨_, rfl, Ordered.singleton hx⟩
  | succ n ih =>
      unfold insertWithin
      split
      · rename_i he
        rw [List.drop_eq_nil_iff] at he
        obtain rfl := List.length_eq_zero_iff.mp (show xs.length = 0 by omega)
        exact ⟨_, rfl, Ordered.singleton hx⟩
      · rename_i middle later he
        have hlen := congrArg List.length he
        rw [List.length_drop, List.length_cons] at hlen
        have hwhole : Ordered le D (xs.take (xs.length / 2) ++ middle :: later) := by
          rwa [← he, List.take_append_drop]
        have hm : D middle :=
          hwhole.within middle (List.mem_append_right _ List.mem_cons_self)
        obtain ⟨b, hb, hle⟩ := hc.test hx hm
        simp only [hb, Option.bind_eq_bind, Option.bind_some]
        cases b with
        | true =>
            -- `x` comes before `middle`, and so before all that is later
            obtain ⟨ys, hys, ho⟩ := ih (by rw [List.length_take]; omega)
              (h.sublist (List.take_sublist (xs.length / 2) xs))
            simp only [hys, if_true, Option.bind_some]
            have hxm : le x middle := hc.flip hm hx (hle.mp rfl)
            exact ⟨_, rfl, hwhole.insert_front hc.trans hx hxm ho (insertWithin_perm hys)⟩
        | false =>
            -- `x` comes behind `middle`, and so behind all that is earlier
            have hmx : le middle x := by
              by_contra hn
              cases hle.mpr hn
            have hlater : later.Sublist xs :=
              (List.sublist_cons_self middle later).trans (he ▸ List.drop_sublist _ xs)
            obtain ⟨ys, hys, ho⟩ := ih (by omega) (h.sublist hlater)
            simp only [hys, Bool.false_eq_true, if_false, Option.bind_some]
            exact ⟨_, rfl, hwhole.insert_back hc.trans hmx ho (insertWithin_perm hys)⟩

theorem exists_foldlM_insert (hc : Compares before le D) {rest run : List α}
    (hrest : ∀ x ∈ rest, D x) (h : Ordered le D run) :
    ∃ ys, rest.foldlM (insert before) run = some ys ∧ Ordered le D ys := by
  induction rest generalizing run with
  | nil => exact ⟨run, rfl, h⟩
  | cons x rest ih =>
      obtain ⟨ys, hys, ho⟩ :=
        exists_insertWithin hc (hrest x List.mem_cons_self) (Nat.le_refl run.length) h
      obtain ⟨zs, hzs, ho'⟩ := ih (fun z hz => hrest z (List.mem_cons_of_mem x hz)) ho
      refine ⟨zs, ?_, ho'⟩
      rw [List.foldlM_cons, insert, hys]
      exact hzs

theorem exists_nextRun (hc : Compares before le D) (least : Nat) {xs : List α}
    (h : ∀ x ∈ xs, D x) :
    ∃ r, nextRun before least xs = some r ∧ Ordered le D r.1 ∧ ∀ x ∈ r.2, D x := by
  obtain ⟨r, hr, ho⟩ := exists_firstRun hc h
  have hrest : ∀ x ∈ r.2, D x := fun x hx =>
    h x ((firstRun_perm hr).mem_iff.mp (List.mem_append_right r.1 hx))
  have htake : ∀ x ∈ r.2.take (least - r.1.length), D x := fun x hx =>
    hrest x (List.mem_of_mem_take hx)
  obtain ⟨ys, hys, ho'⟩ := exists_foldlM_insert hc htake ho
  refine ⟨(ys, r.2.drop (least - r.1.length)), ?_, ho', fun x hx =>
    hrest x (List.mem_of_mem_drop hx)⟩
  simp [nextRun, hr, hys]

/-! ### The pile -/

/-- A run made of two ordered runs is ordered. -/
theorem exists_join (hc : Compares before le D) (bar : Nat) {xs ys : List α}
    (hxs : Ordered le D xs) (hys : Ordered le D ys) :
    ∃ r, Merge.join before bar xs ys = some r ∧ Ordered le D r.1 := by
  obtain ⟨r, hr, hp, ho⟩ := sorts_join hc bar hxs hys
  refine ⟨r, hr, fun z hz => ?_, ho⟩
  exact (List.mem_append.mp (hp.mem_iff.mp hz)).elim (hxs.within z) (hys.within z)

theorem exists_reduce (hc : Compares before le D) (depth bar : Nat) {top : Piled α}
    {pile : List (Piled α)} (ht : Ordered le D top.items)
    (h : ∀ p ∈ pile, Ordered le D p.items) :
    ∃ r, reduce before depth bar top pile = some r ∧ Ordered le D r.1.items ∧
      ∀ p ∈ r.2.1, Ordered le D p.items := by
  induction pile generalizing bar top with
  | nil => exact ⟨_, rfl, ht, h⟩
  | cons below rest ih =>
      unfold reduce
      split
      · obtain ⟨r, hr, ho⟩ := exists_join hc bar (h below List.mem_cons_self) ht
        simp only [hr, Option.bind_eq_bind, Option.bind_some]
        exact ih _ ho fun p hp => h p (List.mem_cons_of_mem below hp)
      · exact ⟨_, rfl, ht, h⟩

theorem exists_makeReady (hc : Compares before le D) (length bar next : Nat)
    {pile : List (Piled α)} (h : ∀ p ∈ pile, Ordered le D p.items) :
    ∃ r, makeReady before length bar next pile = some r ∧ ∀ p ∈ r.1, Ordered le D p.items := by
  cases pile with
  | nil => exact ⟨_, rfl, h⟩
  | cons top pile =>
      obtain ⟨r, hr, ho, hp⟩ := exists_reduce hc (top.depthBefore length next) bar
        (h top List.mem_cons_self) fun p hp => h p (List.mem_cons_of_mem top hp)
      unfold makeReady
      simp only [hr, Option.bind_eq_bind, Option.bind_some]
      refine ⟨_, rfl, fun p hp' => ?_⟩
      rcases List.mem_cons.mp hp' with rfl | hp'
      · exact ho
      · exact hp p hp'

theorem exists_pileUp (hc : Compares before le D) (length least bar : Nat)
    {pile : List (Piled α)} {xs : List α} (hp : ∀ p ∈ pile, Ordered le D p.items) (h : ∀ x ∈ xs, D x) :
    ∃ r, pileUp before length least bar pile xs = some r ∧ ∀ p ∈ r.1, Ordered le D p.items := by
  fun_induction pileUp before length least bar pile xs with
  | case1 bar pile => exact ⟨_, rfl, hp⟩
  | case2 bar pile x xs hnone =>
      obtain ⟨cut, hcut, -⟩ := exists_nextRun hc least h
      rw [hcut] at hnone
      cases hnone
  | case3 bar pile x xs cut hcut hnone =>
      obtain ⟨ready, hready, -⟩ := exists_makeReady hc length bar cut.1.length hp
      rw [hready] at hnone
      cases hnone
  | case4 bar pile x xs cut hcut ready hready ih =>
      obtain ⟨cut', hcut', ho, hrest⟩ := exists_nextRun hc least h
      obtain rfl := Option.some.inj (hcut.symm.trans hcut')
      obtain ⟨ready', hready', hr⟩ := exists_makeReady hc length bar cut.1.length hp
      obtain rfl := Option.some.inj (hready.symm.trans hready')
      refine ih (fun p hp' => ?_) hrest
      rcases List.mem_cons.mp hp' with rfl | hp'
      · exact ho
      · exact hr p hp'

theorem exists_collapse (hc : Compares before le D) {bar : Nat} {top : List α}
    {runs : List (List α)} (ht : Ordered le D top) (h : ∀ xs ∈ runs, Ordered le D xs) :
    ∃ ys, collapse before bar top runs = some ys ∧ Ordered le D ys := by
  fun_induction collapse before bar top runs with
  | case1 bar top => exact ⟨top, rfl, ht⟩
  | case2 bar top below =>
      obtain ⟨r, hr, ho⟩ := exists_join hc bar (h below List.mem_cons_self) ht
      exact ⟨r.1, by rw [hr, Option.map_some], ho⟩
  | case3 bar top below third rest hlt hnone =>
      obtain ⟨r, hr, -⟩ := exists_join hc bar
        (h third (List.mem_cons_of_mem below List.mem_cons_self)) (h below List.mem_cons_self)
      rw [hr] at hnone
      cases hnone
  | case4 bar top below third rest hlt merged hm ih =>
      obtain ⟨r, hr, ho⟩ := exists_join hc bar
        (h third (List.mem_cons_of_mem below List.mem_cons_self)) (h below List.mem_cons_self)
      obtain rfl := Option.some.inj (hm.symm.trans hr)
      refine ih ht fun xs hxs => ?_
      rcases List.mem_cons.mp hxs with rfl | hxs
      · exact ho
      · exact h xs (List.mem_cons_of_mem below (List.mem_cons_of_mem third hxs))
  | case5 bar top below third rest hlt hnone =>
      obtain ⟨r, hr, -⟩ := exists_join hc bar (h below List.mem_cons_self) ht
      rw [hr] at hnone
      cases hnone
  | case6 bar top below third rest hlt merged hm ih =>
      obtain ⟨r, hr, ho⟩ := exists_join hc bar (h below List.mem_cons_self) ht
      obtain rfl := Option.some.inj (hm.symm.trans hr)
      exact ih ho fun xs hxs => h xs (List.mem_cons_of_mem below hxs)

/-! ### Sorting -/

/-- Where the test of what comes before what is an order, sorting puts the items in order. -/
theorem exists_sort (hc : Compares before le D) {xs : List α} (h : ∀ x ∈ xs, D x) :
    ∃ ys, sort before xs = some ys ∧ ys.Perm xs ∧ ys.Pairwise le := by
  have hnone : ∀ p ∈ ([] : List (Piled α)), Ordered le D p.items := fun p hp => by cases hp
  obtain ⟨⟨pile, bar⟩, hr, hp⟩ :=
    exists_pileUp hc xs.length (leastRun 0 xs.length) Merge.worthwhile hnone h
  suffices ∃ ys, sort before xs = some ys ∧ Ordered le D ys by
    obtain ⟨ys, hys, ho⟩ := this
    exact ⟨ys, hys, sort_perm hys, ho.rises⟩
  unfold sort
  simp only [hr, Option.bind_eq_bind, Option.bind_some]
  cases pile with
  | nil => exact ⟨[], rfl, Ordered.nil⟩
  | cons top pile =>
      refine exists_collapse hc (hp top List.mem_cons_self) fun ys hys => ?_
      obtain ⟨p, hp', rfl⟩ := List.mem_map.mp hys
      exact hp p (List.mem_cons_of_mem top hp')

end Blockwork.Sorting
