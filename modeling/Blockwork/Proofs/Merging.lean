import Blockwork.Sorting.Merge
import Mathlib.Data.List.Nodup

/-!
# Merges of ordered runs

What merges come to where the test of what comes before what is an order (`Sorting.Compares`).  The
search for the place up to which one run wins finds it (`Side.exists_count`), so that whatever is
taken at once comes before all that is left; and two ordered runs are made into one ordered run
(`Merge.sorts_join`).

A merge from the back is one from the front in the opposite order (`Side.Rel`), up to the treatment
of equal items, and of both it is shown at once that they put their runs in order.
-/

namespace Blockwork.Sorting

variable {α : Type}

/-- Whether a test tells, of the items with a property, what comes before what in an order in which
any two items can be compared. -/
structure Compares (before : α → α → Option Bool) (le : α → α → Prop) (D : α → Prop) : Prop where
  test : ∀ {a b}, D a → D b → ∃ r, before a b = some r ∧ (r = true ↔ ¬ le b a)
  trans : ∀ {a b c}, D a → D b → D c → le a b → le b c → le a c
  total : ∀ {a b}, D a → D b → le a b ∨ le b a

namespace Merge

variable {before : α → α → Option Bool} {le : α → α → Prop} {D : α → Prop}

/-! ### Places -/

/-- Whether a test has answers on a list, and those at the start are yes and the others no. -/
structure Falls (p : α → Option Bool) (q : α → Bool) (xs : List α) : Prop where
  answers : ∀ x ∈ xs, p x = some (q x)
  closed : xs.Pairwise fun a b => q b = true → q a = true

section

variable {p : α → Option Bool} {q : α → Bool} {xs : List α}

theorem Falls.yes_of_le (h : Falls p q xs) {i j : Nat} {a b : α} (hij : i ≤ j)
    (ha : xs[i]? = some a) (hb : xs[j]? = some b) (hq : q b = true) : q a = true := by
  rcases Nat.lt_or_eq_of_le hij with hlt | rfl
  · obtain ⟨hi, rfl⟩ := List.getElem?_eq_some_iff.mp ha
    obtain ⟨hj, rfl⟩ := List.getElem?_eq_some_iff.mp hb
    exact List.pairwise_iff_getElem.mp h.closed i j hi hj hlt hq
  · rw [ha] at hb
    exact Option.some.inj hb ▸ hq

/-- Whether a place divides the items that pass a test from those that do not. -/
def Divides (q : α → Bool) (xs : List α) (i : Nat) : Prop :=
  ∀ k a, xs[k]? = some a → (q a = true ↔ k < i)

theorem Divides.of_mem_take {i : Nat} (h : Divides q xs i) {a : α} (ha : a ∈ xs.take i) :
    q a = true := by
  obtain ⟨k, hk⟩ := List.mem_iff_getElem?.mp ha
  rw [List.getElem?_take] at hk
  split at hk
  · exact (h k a hk).mpr ‹_›
  · cases hk

theorem Divides.of_mem_drop {i : Nat} (h : Divides q xs i) {a : α} (ha : a ∈ xs.drop i) :
    q a = false := by
  obtain ⟨k, hk⟩ := List.mem_iff_getElem?.mp ha
  rw [List.getElem?_drop] at hk
  rw [Bool.eq_false_iff]
  intro hq
  exact absurd ((h _ a hk).mp hq) (by omega)

/-- Two places, the item at the first of which passes a test and that at the second does not. -/
structure Brackets (q : α → Bool) (xs : List α) (last far : Nat) : Prop where
  lt : last < far
  le : far ≤ xs.length
  yes : ∃ a, xs[last]? = some a ∧ q a = true
  no : ∀ b, xs[far]? = some b → q b = false

theorem exists_stride (h : Falls p q xs) (n : Nat) {last : Nat} {a : α}
    (ha : xs[last]? = some a) (hq : q a = true) :
    ∃ r, stride p xs n last = some r ∧ Brackets q xs r.1 r.2 := by
  have whole : Brackets q xs last xs.length :=
    ⟨(List.getElem?_eq_some_iff.mp ha).1, Nat.le_refl _, ⟨a, ha, hq⟩, fun b hb => by simp at hb⟩
  induction n generalizing last a with
  | zero => exact ⟨_, rfl, whole⟩
  | succ n ih =>
      unfold stride
      cases hx : xs[2 * last + 1]? with
      | none => exact ⟨_, rfl, whole⟩
      | some x =>
          have hlt := (List.getElem?_eq_some_iff.mp hx).1
          simp only [h.answers x (List.mem_of_getElem? hx)]
          cases hqx : q x with
          | true =>
              exact ih hx hqx
                ⟨hlt, Nat.le_refl _, ⟨x, hx, hqx⟩, fun b hb => by simp at hb⟩
          | false =>
              refine ⟨_, rfl, by dsimp only; omega, Nat.le_of_lt hlt, ⟨a, ha, hq⟩, fun b hb => ?_⟩
              dsimp only at hb
              rw [hx] at hb
              exact Option.some.inj hb ▸ hqx

/-- Two places, before the first of which all items pass a test, and from the second on none does. -/
structure Encloses (q : α → Bool) (xs : List α) (low high : Nat) : Prop where
  le : high ≤ xs.length
  yes : ∀ k a, k < low → xs[k]? = some a → q a = true
  no : ∀ k a, high ≤ k → xs[k]? = some a → q a = false

theorem Encloses.divides {low : Nat} (h : Encloses q xs low low) : Divides q xs low := by
  intro k a ha
  constructor
  · intro hq
    by_contra hk
    rw [h.no k a (by omega) ha] at hq
    cases hq
  · intro hk
    exact h.yes k a hk ha

theorem Brackets.encloses (h : Falls p q xs) {last far : Nat} (hb : Brackets q xs last far) :
    Encloses q xs (last + 1) far := by
  obtain ⟨a, ha, hq⟩ := hb.yes
  refine ⟨hb.le, fun k b hk hkb => h.yes_of_le (by omega) hkb ha hq, fun k b hk hkb => ?_⟩
  rw [Bool.eq_false_iff]
  intro hqb
  have hlt : far < xs.length := by
    have := (List.getElem?_eq_some_iff.mp hkb).1
    omega
  have hfar := List.getElem?_eq_getElem hlt
  have hno := hb.no _ hfar
  rw [h.yes_of_le hk hfar hkb hqb] at hno
  cases hno

/-- Halving finds the place, as each step leaves less between two places that enclose it. -/
theorem exists_halve (h : Falls p q xs) {middle : Nat → Nat}
    (hm : ∀ width, 0 < width → middle width < width) {n low width : Nat} (hn : width ≤ n)
    (hw : Encloses q xs low (low + width)) :
    ∃ i, halve middle p xs n low width = some i ∧ i ≤ xs.length ∧ Divides q xs i := by
  induction n generalizing low width with
  | zero =>
      obtain rfl : width = 0 := Nat.le_zero.mp hn
      exact ⟨low, rfl, hw.le, hw.divides⟩
  | succ n ih =>
      unfold halve
      split
      · rename_i hz
        subst hz
        exact ⟨low, rfl, hw.le, hw.divides⟩
      · rename_i hz
        have hmid := hm width (Nat.pos_of_ne_zero hz)
        have hle := hw.le
        have hlt : low + middle width < xs.length := by omega
        have hx := List.getElem?_eq_getElem hlt
        generalize xs[low + middle width] = x at hx
        simp only [hx, passes, h.answers x (List.mem_of_getElem? hx)]
        cases hqx : q x with
        | true =>
            have hright : low + middle width + 1 + (low + width - (low + middle width + 1))
                = low + width := by omega
            refine ih (by omega) ⟨by omega, fun k a hk ha => ?_, fun k a hk ha => ?_⟩
            · exact h.yes_of_le (by omega) ha hx hqx
            · exact hw.no k a (by omega) ha
        | false =>
            refine ih (by omega) ⟨by omega, hw.yes, fun k a hk ha => ?_⟩
            rw [Bool.eq_false_iff]
            intro hq
            rw [h.yes_of_le (by omega) hx ha hq] at hqx
            cases hqx

theorem Side.middle_lt (s : Side) {width : Nat} (h : 0 < width) : s.middle width < width := by
  cases s with
  | front => exact Nat.div_lt_self h (by omega)
  | back =>
      unfold Side.middle
      dsimp only
      omega

/-- How many items at the start pass is found out. -/
theorem Side.exists_count (s : Side) (h : Falls p q xs) :
    ∃ i, s.count p xs = some i ∧ i ≤ xs.length ∧ Divides q xs i := by
  unfold Side.count
  cases xs with
  | nil => exact ⟨0, rfl, Nat.le_refl _, fun k a ha => by simp at ha⟩
  | cons x xs =>
      simp only [List.head?_cons, passes, h.answers x List.mem_cons_self]
      cases hqx : q x with
      | true =>
          have hx : (x :: xs)[0]? = some x := rfl
          obtain ⟨r, hr, hb⟩ := exists_stride h (x :: xs).length hx hqx
          obtain ⟨last, far⟩ := r
          have hw := hb.encloses h
          have hlt := hb.lt
          have hle := hb.le
          dsimp only at hw hlt hle
          rw [show far = last + 1 + (far - (last + 1)) by omega] at hw
          obtain ⟨i, hi, hdone⟩ := exists_halve h (fun _ => s.middle_lt)
            (n := (x :: xs).length) (by omega) hw
          refine ⟨i, ?_, hdone⟩
          rw [List.length_cons] at hr hi
          simp [hr, hi]
      | false =>
          refine ⟨0, rfl, Nat.zero_le _, fun k a ha => ?_⟩
          refine ⟨fun hq => ?_, fun hk => absurd hk (Nat.not_lt_zero k)⟩
          rw [h.yes_of_le (Nat.zero_le k) rfl ha hq] at hqx
          cases hqx

end

/-! ### Sides -/

/-- The order a merge from a side puts the items in. -/
def Side.Rel (s : Side) (le : α → α → Prop) (a b : α) : Prop :=
  match s with
  | .front => le a b
  | .back => le b a

/-- Whether an item of the first run is taken before one of the second. -/
def Side.Wins (s : Side) (le : α → α → Prop) (x y : α) : Prop :=
  match s with
  | .front => le x y
  | .back => ¬ le x y

section

variable {s : Side} {a b c x y : α}

theorem Side.rel_trans (hc : Compares before le D) (ha : D a) (hb : D b) (hd : D c)
    (hab : s.Rel le a b) (hbc : s.Rel le b c) : s.Rel le a c := by
  cases s with
  | front => exact hc.trans ha hb hd hab hbc
  | back => exact hc.trans hd hb ha hbc hab

theorem Side.rel_of_wins (hc : Compares before le D) (hx : D x) (hy : D y) (h : s.Wins le x y) :
    s.Rel le x y := by
  cases s with
  | front => exact h
  | back => exact (hc.total hx hy).resolve_left h

theorem Side.rel_of_not_wins (hc : Compares before le D) (hx : D x) (hy : D y)
    (h : ¬ s.Wins le x y) : s.Rel le y x := by
  cases s with
  | front => exact (hc.total hx hy).resolve_left h
  | back => exact Classical.not_not.mp h

theorem Side.wins_of_rel_left (hc : Compares before le D) (ha : D a) (hb : D b) (hy : D y)
    (hab : s.Rel le a b) (h : s.Wins le b y) : s.Wins le a y := by
  cases s with
  | front => exact hc.trans ha hb hy hab h
  | back => exact fun hay => h (hc.trans hb ha hy hab hay)

theorem Side.wins_of_rel_right (hc : Compares before le D) (hx : D x) (ha : D a) (hb : D b)
    (hab : s.Rel le a b) (h : s.Wins le x a) : s.Wins le x b := by
  cases s with
  | front => exact hc.trans hx ha hb h hab
  | back => exact fun hxb => h (hc.trans hx hb ha hxb hab)

theorem Side.exists_takesFirst (hc : Compares before le D) (hx : D x) (hy : D y) :
    ∃ r, s.takesFirst before x y = some r ∧ (r = true ↔ s.Wins le x y) := by
  obtain ⟨r, hr, hle⟩ := hc.test hy hx
  refine ⟨_, by rw [Side.takesFirst, hr, Option.map_some], ?_⟩
  cases s with
  | front => cases r <;> simp_all [Side.Wins]
  | back => cases r <;> simp_all [Side.Wins]

end

/-! ### Two runs -/

/-- Whether a merge has an answer, which is a list put in order. -/
def Sorts (R : α → α → Prop) (r : Option (List α × Nat)) (zs : List α) : Prop :=
  ∃ q, r = some q ∧ q.1.Perm zs ∧ q.1.Pairwise R

/-- Whether all items of a run can be compared and are in order. -/
structure Ordered (R : α → α → Prop) (D : α → Prop) (xs : List α) : Prop where
  within : ∀ x ∈ xs, D x
  rises : xs.Pairwise R

/-- Whether two runs can be merged from a side: both are in order, and where one is used up but for
its last item, that one comes behind the whole other run. -/
structure Ready (s : Side) (le : α → α → Prop) (D : α → Prop) (xs ys : List α) : Prop where
  first : Ordered (s.Rel le) D xs
  second : Ordered (s.Rel le) D ys
  last_first : s = .front → ∀ x ∈ xs.getLast?, ∀ y ∈ ys, s.Rel le y x
  last_second : s = .back → ∀ y ∈ ys.getLast?, ∀ x ∈ xs, s.Rel le x y

variable {s : Side} {xs ys zs : List α} {r : Option (List α × Nat)}

theorem Sorts.push {R : α → α → Prop} {taken : List α} (h : Sorts R r zs)
    (ht : taken.Pairwise R) (hl : ∀ a ∈ taken, ∀ b ∈ zs, R a b) :
    Sorts R (push taken r) (taken ++ zs) := by
  obtain ⟨q, rfl, hp, hq⟩ := h
  refine ⟨_, rfl, hp.append_left taken, List.pairwise_append.mpr ⟨ht, hq, fun a ha b hb => ?_⟩⟩
  exact hl a ha b (hp.mem_iff.mp hb)

/-- What comes behind all that is sorted stays behind it. -/
theorem Sorts.behind {R : α → α → Prop} {left : List α} (h : Sorts R r zs)
    (hl : left.Pairwise R) (ha : ∀ a ∈ zs, ∀ b ∈ left, R a b) :
    Sorts R (r.map fun q => (q.1 ++ left, q.2)) (zs ++ left) := by
  obtain ⟨q, rfl, hp, hq⟩ := h
  refine ⟨_, rfl, hp.append_right left, List.pairwise_append.mpr ⟨hq, hl, fun a hz b hb => ?_⟩⟩
  exact ha a (hp.mem_iff.mp hz) b hb

theorem Sorts.perm {R : α → α → Prop} {zs' : List α} (h : Sorts R r zs) (hp : zs.Perm zs') :
    Sorts R r zs' := by
  obtain ⟨q, hq, hz, hs⟩ := h
  exact ⟨q, hq, hz.trans hp, hs⟩

theorem Ordered.sublist {R : α → α → Prop} (h : Ordered R D ys) (hs : xs.Sublist ys) :
    Ordered R D xs :=
  ⟨fun x hx => h.within x (hs.subset hx), h.rises.sublist hs⟩

/-- What comes before the first item of a run comes before all of it. -/
theorem Ordered.rel_of_head (hc : Compares before le D) {x y : α}
    (h : Ordered (s.Rel le) D (y :: ys)) (hx : D x) (hxy : s.Rel le x y) {b : α}
    (hb : b ∈ y :: ys) : s.Rel le x b := by
  rcases List.mem_cons.mp hb with rfl | hb'
  · exact hxy
  · exact Side.rel_trans hc hx (h.within y List.mem_cons_self) (h.within b hb) hxy
      (List.rel_of_pairwise_cons h.rises hb')

namespace Ready

theorem drop (h : Ready s le D xs ys) (i j : Nat) : Ready s le D (xs.drop i) (ys.drop j) where
  first := h.first.sublist (List.drop_sublist i xs)
  second := h.second.sublist (List.drop_sublist j ys)
  last_first hs x hx y hy := by
    rw [List.getLast?_drop] at hx
    split at hx
    · cases hx
    · exact h.last_first hs x hx y (List.mem_of_mem_drop hy)
  last_second hs y hy x hx := by
    rw [List.getLast?_drop] at hy
    split at hy
    · cases hy
    · exact h.last_second hs y hy x (List.mem_of_mem_drop hx)

theorem sorts_leftover (h : Ready s le D xs ys) (ho : s.isOver xs ys = true) (bar : Nat) :
    Sorts (s.Rel le) (some (s.leftover xs ys, bar)) (xs ++ ys) := by
  refine ⟨_, rfl, leftover_perm s xs ys, ?_⟩
  cases s with
  | front =>
      refine List.pairwise_append.mpr ⟨h.second.rises, h.first.rises, fun y hy x hx => ?_⟩
      refine h.last_first rfl x ?_ y hy
      rcases xs with _ | ⟨x', _ | ⟨x'', xs⟩⟩
      · cases hx
      · rw [List.mem_singleton] at hx
        exact hx ▸ rfl
      · cases ys with
        | nil => cases hy
        | cons y' ys => simp [Side.isOver] at ho
  | back =>
      refine List.pairwise_append.mpr ⟨h.first.rises, h.second.rises, fun x hx y hy => ?_⟩
      refine h.last_second rfl y ?_ x hx
      rcases ys with _ | ⟨y', _ | ⟨y'', ys⟩⟩
      · cases hy
      · rw [List.mem_singleton] at hy
        exact hy ▸ rfl
      · cases xs with
        | nil => cases hx
        | cons x' xs => simp [Side.isOver] at ho

theorem push_first (h : Ready s le D xs ys) (i : Nat)
    (hl : ∀ a ∈ xs.take i, ∀ b ∈ ys, s.Rel le a b)
    (hr : Sorts (s.Rel le) r (xs.drop i ++ ys)) :
    Sorts (s.Rel le) (push (xs.take i) r) (xs ++ ys) := by
  have hsplit : (xs.take i ++ xs.drop i).Pairwise (s.Rel le) := by
    rw [List.take_append_drop]
    exact h.first.rises
  obtain ⟨ht, -, htd⟩ := List.pairwise_append.mp hsplit
  have hpush := hr.push ht fun a ha b hb => (List.mem_append.mp hb).elim (htd a ha b) (hl a ha b)
  rwa [← List.append_assoc, List.take_append_drop] at hpush

theorem push_second (h : Ready s le D xs ys) (j : Nat)
    (hl : ∀ a ∈ ys.take j, ∀ b ∈ xs, s.Rel le a b)
    (hr : Sorts (s.Rel le) r (xs ++ ys.drop j)) :
    Sorts (s.Rel le) (push (ys.take j) r) (xs ++ ys) := by
  have hsplit : (ys.take j ++ ys.drop j).Pairwise (s.Rel le) := by
    rw [List.take_append_drop]
    exact h.second.rises
  obtain ⟨ht, -, htd⟩ := List.pairwise_append.mp hsplit
  have hpush := hr.push ht fun a ha b hb => (List.mem_append.mp hb).elim (hl a ha b) (htd a ha b)
  refine hpush.perm ?_
  rw [← List.append_assoc]
  refine (List.perm_append_comm.append_right _).trans ?_
  rw [List.append_assoc, List.take_append_drop]

end Ready

theorem Ordered.falls_first (hc : Compares before le D) {y : α} (h : Ordered (s.Rel le) D xs)
    (hy : D y) :
    ∃ q : α → Bool, Falls (s.takesFirst before · y) q xs ∧ ∀ x, q x = true ↔ s.Wins le x y := by
  classical
  refine ⟨fun x => decide (s.Wins le x y), ⟨fun x hx => ?_, ?_⟩, fun x => decide_eq_true_iff⟩
  · obtain ⟨r, hr, hw⟩ := Side.exists_takesFirst (s := s) hc (h.within x hx) hy
    rw [hr, ← hw]
    cases r <;> simp
  · refine h.rises.imp_of_mem fun {a b} ha hb hab hq => ?_
    rw [decide_eq_true_iff] at hq ⊢
    exact Side.wins_of_rel_left hc (h.within a ha) (h.within b hb) hy hab hq

theorem Ordered.falls_second (hc : Compares before le D) {x : α} (h : Ordered (s.Rel le) D ys)
    (hx : D x) :
    ∃ q : α → Bool, Falls (s.takesSecond before x ·) q ys ∧ ∀ y, q y = true ↔ ¬ s.Wins le x y := by
  classical
  refine ⟨fun y => decide (¬ s.Wins le x y), ⟨fun y hy => ?_, ?_⟩, fun y => decide_eq_true_iff⟩
  · obtain ⟨r, hr, hw⟩ := Side.exists_takesFirst (s := s) hc hx (h.within y hy)
    rw [Side.takesSecond, hr, ← hw]
    cases r <;> simp
  · refine h.rises.imp_of_mem fun {a b} ha hb hab hq => ?_
    rw [decide_eq_true_iff] at hq ⊢
    exact fun hxa => hq (Side.wins_of_rel_right hc hx (h.within a ha) (h.within b hb) hab hxa)

/-- The items of the first run that are taken at once come before all of the second run, and those
left behind its first item. -/
theorem Ordered.exists_first (hc : Compares before le D) {y : α} (hxs : Ordered (s.Rel le) D xs)
    (hys : Ordered (s.Rel le) D (y :: ys)) :
    ∃ i, s.count (s.takesFirst before · y) xs = some i ∧ i ≤ xs.length ∧
      (∀ a ∈ xs.take i, ∀ b ∈ y :: ys, s.Rel le a b) ∧ ∀ a ∈ xs.drop i, s.Rel le y a := by
  have hy := hys.within y List.mem_cons_self
  obtain ⟨q, hf, hq⟩ := hxs.falls_first hc hy
  obtain ⟨i, hi, hle, hd⟩ := s.exists_count hf
  refine ⟨i, hi, hle, fun a ha b hb => ?_, fun a ha => ?_⟩
  · have hDa := hxs.within a (List.mem_of_mem_take ha)
    exact hys.rel_of_head hc hDa (Side.rel_of_wins hc hDa hy ((hq a).mp (hd.of_mem_take ha))) hb
  · refine Side.rel_of_not_wins hc (hxs.within a (List.mem_of_mem_drop ha)) hy fun hw => ?_
    rw [← hq a, hd.of_mem_drop ha] at hw
    cases hw

theorem Ordered.exists_second (hc : Compares before le D) {x : α} (hys : Ordered (s.Rel le) D ys)
    (hxs : Ordered (s.Rel le) D (x :: xs)) :
    ∃ j, s.count (s.takesSecond before x ·) ys = some j ∧ j ≤ ys.length ∧
      (∀ b ∈ ys.take j, ∀ a ∈ x :: xs, s.Rel le b a) ∧ ∀ b ∈ ys.drop j, s.Rel le x b := by
  have hx := hxs.within x List.mem_cons_self
  obtain ⟨q, hf, hq⟩ := hys.falls_second hc hx
  obtain ⟨j, hj, hle, hd⟩ := s.exists_count hf
  refine ⟨j, hj, hle, fun b hb a ha => ?_, fun b hb => ?_⟩
  · have hDb := hys.within b (List.mem_of_mem_take hb)
    refine hxs.rel_of_head hc hDb ?_ ha
    exact Side.rel_of_not_wins hc hx hDb ((hq b).mp (hd.of_mem_take hb))
  · refine Side.rel_of_wins hc hx (hys.within b (List.mem_of_mem_drop hb)) ?_
    by_contra hw
    rw [← hq b, hd.of_mem_drop hb] at hw
    cases hw

theorem Ready.sorts_nil_left (h : Ready s le D [] ys) (bar : Nat) :
    Sorts (s.Rel le) (some (s.leftover [] ys, bar)) ([] ++ ys) := by
  refine h.sorts_leftover ?_ bar
  cases s with
  | front => rfl
  | back => rfl

theorem Ready.sorts_nil_right (h : Ready s le D xs []) (bar : Nat) :
    Sorts (s.Rel le) (some (s.leftover xs [], bar)) (xs ++ []) := by
  refine h.sorts_leftover ?_ bar
  cases s with
  | front => simp [Side.isOver]
  | back => simp [Side.isOver]

/-- Whether a way of merging puts two runs in order that are ready for it and hold at most so many
items. -/
def Completes (s : Side) (le : α → α → Prop) (D : α → Prop) (n : Nat)
    (f : List α → List α → Option (List α × Nat)) : Prop :=
  ∀ xs ys, Ready s le D xs ys → xs.length + ys.length ≤ n → Sorts (s.Rel le) (f xs ys) (xs ++ ys)

section

variable {n : Nat}
  (one : ∀ bar wins losses, Completes s le D n (singly before s n bar wins losses))
  (bulk : ∀ bar, Completes s le D n (inBulk before s n bar))

include one bulk

theorem completes_singly (hc : Compares before le D) (bar wins losses : Nat) :
    Completes s le D (n + 1) (singly before s (n + 1) bar wins losses) := by
  intro xs ys h hn
  unfold singly
  split
  · rename_i ho
    exact h.sorts_leftover ho bar
  · split
    · rename_i x xs y ys _
      have hx := h.first.within x List.mem_cons_self
      have hy := h.second.within y List.mem_cons_self
      obtain ⟨r, hr, hw⟩ := Side.exists_takesFirst (s := s) hc hx hy
      simp only [List.length_cons] at hn
      simp only [hr, Option.bind_eq_bind, Option.bind_some]
      cases r with
      | true =>
          have hxy := Side.rel_of_wins hc hx hy (hw.mp rfl)
          have hrest : Ready s le D xs (y :: ys) := h.drop 1 0
          refine h.push_first 1 (fun a ha b hb => ?_) ?_
          · obtain rfl : a = x := by simpa using ha
            exact h.second.rel_of_head hc hx hxy hb
          · split
            · exact one _ _ _ _ _ hrest (by simp; omega)
            · exact bulk _ _ _ hrest (by simp; omega)
      | false =>
          have hyx : s.Rel le y x := Side.rel_of_not_wins hc hx hy fun h => by cases hw.mpr h
          have hrest : Ready s le D (x :: xs) ys := h.drop 0 1
          refine h.push_second 1 (fun b hb a ha => ?_) ?_
          · obtain rfl : b = y := by simpa using hb
            exact h.first.rel_of_head hc hy hyx ha
          · split
            · exact one _ _ _ _ _ hrest (by simp; omega)
            · exact bulk _ _ _ hrest (by simp; omega)
    · rename_i hne
      rcases xs with _ | ⟨x, xs⟩
      · exact h.sorts_nil_left bar
      · rcases ys with _ | ⟨y, ys⟩
        · exact h.sorts_nil_right bar
        · exact absurd rfl (hne x xs y ys rfl)

theorem completes_inBulk (hc : Compares before le D) (bar : Nat) :
    Completes s le D (n + 1) (inBulk before s (n + 1) bar) := by
  intro xs ys h hn
  rcases ys with _ | ⟨y, ys⟩
  · unfold inBulk
    exact h.sorts_nil_right bar
  · unfold inBulk
    -- the items of the first run that come before `y`, and `y` itself
    obtain ⟨i, hi, hile, htaken, hleft⟩ := h.first.exists_first hc h.second
    simp only [hi, Option.bind_eq_bind, Option.bind_some]
    have h1 : Ready s le D (xs.drop i) (y :: ys) := h.drop i 0
    refine h.push_first i htaken ?_
    have hlen : (xs.drop i).length = xs.length - i := List.length_drop
    generalize xs.drop i = xs at *
    split
    · rename_i ho
      exact h1.sorts_leftover ho bar
    · have h2 : Ready s le D xs ys := h1.drop 0 1
      refine h1.push_second 1 (fun b hb a ha => ?_) ?_
      · obtain rfl : b = y := by simpa using hb
        exact hleft a ha
      · change Sorts _ _ (xs ++ ys)
        split
        · rename_i ho
          exact h2.sorts_leftover ho bar
        · rcases xs with _ | ⟨x, xs⟩
          · exact h2.sorts_nil_left bar
          · -- the items of the second run that come before `x`, and `x` itself
            obtain ⟨j, hj, hjle, htaken', hleft'⟩ := h2.second.exists_second hc h2.first
            simp only [hj, Option.bind_some]
            have h3 : Ready s le D (x :: xs) (ys.drop j) := h2.drop 0 j
            refine h2.push_second j htaken' ?_
            have hlen' : (ys.drop j).length = ys.length - j := List.length_drop
            generalize ys.drop j = ys' at *
            split
            · rename_i ho
              exact h3.sorts_leftover ho bar
            · have h4 : Ready s le D xs ys' := h3.drop 1 0
              refine h3.push_first 1 (fun a ha b hb => ?_) ?_
              · obtain rfl : a = x := by simpa using ha
                exact hleft' b hb
              · change Sorts _ _ (xs ++ ys')
                simp only [List.length_cons] at hn hlen
                split
                · rename_i ho
                  exact h4.sorts_leftover ho bar
                · split
                  · exact bulk _ _ _ h4 (by omega)
                  · exact one _ _ _ _ _ h4 (by omega)

end

/-- Both ways of merging put two runs in order, as each step takes an item that comes before all
that is left. -/
theorem completes_merge (hc : Compares before le D) (s : Side) (n : Nat) :
    (∀ bar wins losses, Completes s le D n (singly before s n bar wins losses)) ∧
      ∀ bar, Completes s le D n (inBulk before s n bar) := by
  induction n with
  | zero =>
      constructor
      · intro bar wins losses xs ys h hn
        obtain rfl := List.length_eq_zero_iff.mp (show xs.length = 0 by omega)
        unfold singly
        exact h.sorts_nil_left bar
      · intro bar xs ys h hn
        obtain rfl := List.length_eq_zero_iff.mp (show xs.length = 0 by omega)
        unfold inBulk
        exact h.sorts_nil_left bar
  | succ n ih =>
      obtain ⟨one, bulk⟩ := ih
      exact ⟨completes_singly one bulk hc, completes_inBulk one bulk hc⟩

/-! ### Joins -/

theorem Sorts.map {R : α → α → Prop} {f : List α → List α} {zs' : List α}
    (h : Sorts R r zs) (hp : ∀ xs : List α, xs.Perm zs → (f xs).Perm zs')
    {R' : α → α → Prop} (ho : ∀ xs : List α, xs.Perm zs → xs.Pairwise R → (f xs).Pairwise R') :
    Sorts R' (r.map fun q => (f q.1, q.2)) zs' := by
  obtain ⟨q, rfl, hz, hs⟩ := h
  exact ⟨_, rfl, hp _ hz, ho _ hz hs⟩

theorem Ordered.reverse (h : Ordered le D xs) : Ordered (Side.back.Rel le) D xs.reverse :=
  ⟨fun x hx => h.within x (List.mem_reverse.mp hx), List.pairwise_reverse.mpr h.rises⟩

/-- What lies between is merged, from either side. -/
theorem sorts_between (hc : Compares before le D) (bar : Nat) (hxs : Ordered le D xs)
    (hys : Ordered le D ys) (hfirst : ∀ y ∈ ys.head?, ∀ x ∈ xs, le y x)
    (hlast : ∀ x ∈ xs.getLast?, ∀ y ∈ ys, le y x) :
    Sorts le (between before bar xs ys) (xs ++ ys) := by
  unfold between
  split
  · have h : Ready .front le D xs ys := ⟨hxs, hys, fun _ => hlast, fun hs => by cases hs⟩
    have hrest : Ready .front le D xs (ys.drop 1) := h.drop 0 1
    refine h.push_second 1 (fun b hb a ha => ?_)
      ((completes_merge hc .front _).1 _ _ _ _ _ hrest (by simp))
    refine hfirst b ?_ a ha
    rw [List.take_one] at hb
    exact Option.mem_toList.mp hb
  · have h : Ready .back le D xs.reverse ys.reverse := by
      refine ⟨hxs.reverse, hys.reverse, (fun hs => by cases hs), fun _ y hy x hx => ?_⟩
      rw [List.getLast?_reverse] at hy
      exact hfirst y hy x (List.mem_reverse.mp hx)
    have hrest : Ready .back le D (xs.reverse.drop 1) ys.reverse := h.drop 1 0
    have hmerged := h.push_first 1 (fun a ha b hb => ?_)
      ((completes_merge hc .back (xs.length + ys.length)).1 bar 0 0 _ _ hrest (by simp))
    · refine hmerged.map (fun zs hz => ?_) fun zs _ hs => List.pairwise_reverse.mpr hs
      refine (List.reverse_perm _).trans (hz.trans ?_)
      exact (List.reverse_perm _).append (List.reverse_perm _)
    · refine hlast a ?_ b (List.mem_reverse.mp hb)
      rw [List.take_one, List.head?_reverse] at ha
      exact Option.mem_toList.mp ha

/-- The items at the end of the second run that stay in their place come behind `x`, and the others
before it. -/
theorem Ordered.exists_behind (hc : Compares before le D) {x : α} (hx : D x)
    (h : Ordered le D ys) :
    ∃ k, Side.back.count (fun y => (before y x).map (!·)) ys.reverse = some k ∧
      (∀ a ∈ ys.take (ys.length - k), le a x) ∧ ∀ b ∈ ys.drop (ys.length - k), le x b := by
  classical
  have hf : Falls (fun y => (before y x).map (!·)) (fun y => decide (le x y)) ys.reverse := by
    refine ⟨fun y hy => ?_, ?_⟩
    · obtain ⟨r, hr, hle⟩ := hc.test (h.within y (List.mem_reverse.mp hy)) hx
      rw [hr]
      cases r <;> simp_all
    · refine h.reverse.rises.imp_of_mem fun {a b} ha hb hab hq => ?_
      rw [decide_eq_true_iff] at hq ⊢
      exact hc.trans hx (h.reverse.within b hb) (h.reverse.within a ha) hq hab
  obtain ⟨k, hk, -, hd⟩ := Side.back.exists_count hf
  refine ⟨k, hk, fun a ha => ?_, fun b hb => ?_⟩
  · have hm : a ∈ ys.reverse.drop k := by
      rw [List.drop_reverse]
      exact List.mem_reverse.mpr ha
    have hno := hd.of_mem_drop hm
    rw [decide_eq_false_iff_not] at hno
    exact (hc.total hx (h.within a (List.mem_of_mem_take ha))).resolve_left hno
  · have hm : b ∈ ys.reverse.take k := by
      rw [List.take_reverse]
      exact List.mem_reverse.mpr hb
    exact of_decide_eq_true (hd.of_mem_take hm)

theorem Ordered.rel_last (hc : Compares before le D) {x : α} (h : Ordered le D xs)
    (hx : x ∈ xs.getLast?) {a : α} (ha : a ∈ xs) : le a x := by
  have hrev := h.reverse
  have hhead : x ∈ xs.reverse.head? := by rwa [List.head?_reverse]
  rw [← List.mem_reverse] at ha
  generalize xs.reverse = zs at hrev hhead ha
  rcases zs with _ | ⟨z, zs⟩
  · cases hhead
  · obtain rfl : z = x := Option.some.inj hhead
    have hz := hrev.within z List.mem_cons_self
    exact hrev.rel_of_head hc hz ((hc.total hz hz).elim id id) ha

/-- Two ordered runs are made into one. -/
theorem sorts_join (hc : Compares before le D) (bar : Nat) (hxs : Ordered le D xs)
    (hys : Ordered le D ys) : Sorts le (join before bar xs ys) (xs ++ ys) := by
  unfold join
  have stays (h : ∀ a ∈ xs, ∀ b ∈ ys, le a b) : Sorts le (some (xs ++ ys, bar)) (xs ++ ys) :=
    ⟨_, rfl, .refl _, List.pairwise_append.mpr ⟨hxs.rises, hys.rises, h⟩⟩
  rcases ys with _ | ⟨y, ys⟩
  · exact stays fun _ _ _ hb => by cases hb
  · obtain ⟨i, hi, -, htaken, hleft⟩ := Ordered.exists_first (s := .front) hc hxs hys
    simp only [List.head?_cons, hi, Option.bind_eq_bind, Option.bind_some]
    have hsplit := List.take_append_drop i xs
    have hdrop := hxs.sublist (List.drop_sublist i xs)
    cases hlast : (xs.drop i).getLast? with
    | none =>
        rw [List.getLast?_eq_none_iff.mp hlast, List.append_nil] at hsplit
        exact stays fun a ha => htaken a (hsplit.symm ▸ ha)
    | some x =>
        have hx := List.mem_of_getLast? hlast
        have hDx := hdrop.within x hx
        obtain ⟨k, hk, hbefore, hbehind⟩ := hys.exists_behind hc hDx
        simp only [hk, Option.bind_some]
        generalize (y :: ys).length - k = j at *
        -- what stays in its place at the end comes behind all the rest
        have hafter : ∀ a ∈ xs.drop i, ∀ b ∈ (y :: ys).drop j, le a b := fun a ha b hb =>
          hc.trans (hdrop.within a ha) hDx (hys.within b (List.mem_of_mem_drop hb))
            (hdrop.rel_last hc hlast ha) (hbehind b hb)
        split
        · rename_i hj
          subst hj
          refine stays fun a ha => ?_
          rw [← hsplit] at ha
          exact (List.mem_append.mp ha).elim (htaken a) (hafter a)
        · rename_i hj
          have htake := hys.sublist (List.take_sublist j (y :: ys))
          have hfirst : ∀ b ∈ ((y :: ys).take j).head?, ∀ a ∈ xs.drop i, le b a := fun b hb => by
            rw [List.head?_take, if_neg hj] at hb
            exact Option.some.inj hb ▸ hleft
          have hfinal : ∀ a ∈ (xs.drop i).getLast?, ∀ b ∈ (y :: ys).take j, le b a := fun a ha => by
            rw [hlast] at ha
            exact Option.some.inj ha ▸ hbefore
          have hparts : ((y :: ys).take j ++ (y :: ys).drop j).Pairwise le := by
            rw [List.take_append_drop]
            exact hys.rises
          have hwhole : (xs.take i ++ xs.drop i).Pairwise le := by
            rw [hsplit]
            exact hxs.rises
          obtain ⟨-, hrest, hapart⟩ := List.pairwise_append.mp hparts
          obtain ⟨hstart, -, hbelow⟩ := List.pairwise_append.mp hwhole
          have hmid := (sorts_between hc bar hdrop htake hfirst hfinal).behind hrest fun a ha b hb =>
            (List.mem_append.mp ha).elim (hafter a · b hb) (hapart a · b hb)
          rw [List.append_assoc, List.take_append_drop] at hmid
          have hpush := hmid.push hstart fun a ha b hb =>
            (List.mem_append.mp hb).elim (hbelow a ha b) (htaken a ha b)
          rwa [← List.append_assoc, hsplit] at hpush

end Merge

end Blockwork.Sorting
