import Mathlib.Data.List.Nodup
import Mathlib.Logic.Function.Basic
import Mathlib.Logic.Relation

/-!
# Forests

A forest is given by a partial function `up`, from each node to the one it hangs from.  `Lineage up
x l` says that `l` is the whole way up from `x`, to a node that hangs nowhere; a forest in which
every node has a lineage is `Rooted`, and has no cycle.  `Hangs up x y` says that `y` is on the way
up from `x`.

A rooted forest stays rooted when links are cut (`Rooted.shrink`), and when a node that hangs
nowhere is hung below a node that does not hang from it (`Rooted.graft`).  Nodes below a node come
to it through one of its children only (`Rooted.branch_unique`).
-/

namespace Blockwork.Forest

open Relation

variable {α : Type} {up : α → Option α}

/-- The nodes on the way up from a node, itself first, to one that hangs nowhere. -/
inductive Lineage (up : α → Option α) : α → List α → Prop where
  | root {x : α} : up x = none → Lineage up x [x]
  | step {x p : α} {l : List α} : up x = some p → Lineage up p l → Lineage up x (x :: l)

/-- Every node comes to one that hangs nowhere. -/
def Rooted (up : α → Option α) : Prop := ∀ x, ∃ l, Lineage up x l

/-- `x` is `y`, or hangs from it in some steps. -/
def Hangs (up : α → Option α) : α → α → Prop := ReflTransGen fun x p => up x = some p

/-! ### Lineages -/

namespace Lineage

variable {x y : α} {l m : List α}

theorem mem_self (h : Lineage up x l) : x ∈ l := by
  cases h with
  | root => exact List.mem_singleton_self x
  | step => exact List.mem_cons_self

theorem length_pos (h : Lineage up x l) : 0 < l.length := List.length_pos_of_mem h.mem_self

theorem unique (h : Lineage up x l) (k : Lineage up x m) : l = m := by
  induction h generalizing m with
  | root hx =>
      cases k with
      | root => rfl
      | step hx' => rw [hx] at hx'; cases hx'
  | step hx _ ih =>
      cases k with
      | root hx' => rw [hx] at hx'; cases hx'
      | step hx' k =>
          obtain rfl := Option.some.inj (hx.symm.trans hx')
          rw [ih k]

/-- A node on the way up has the rest of the way as its lineage. -/
theorem suffix_of_mem (h : Lineage up x l) (hy : y ∈ l) : ∃ m, Lineage up y m ∧ m <:+ l := by
  induction h with
  | root hx =>
      obtain rfl := List.mem_singleton.mp hy
      exact ⟨_, .root hx, List.suffix_rfl⟩
  | step hx k ih =>
      rcases List.mem_cons.mp hy with rfl | hy
      · exact ⟨_, .step hx k, List.suffix_rfl⟩
      · obtain ⟨m, hm, hs⟩ := ih hy
        exact ⟨m, hm, hs.trans (List.suffix_cons ..)⟩

/-- No node is met twice on the way up. -/
theorem nodup (h : Lineage up x l) : l.Nodup := by
  induction h with
  | root => exact List.nodup_singleton _
  | @step x p l hx k ih =>
      refine List.nodup_cons.mpr ⟨fun hm => ?_, ih⟩
      obtain ⟨m, hm, hs⟩ := k.suffix_of_mem hm
      obtain rfl := hm.unique (.step hx k)
      exact absurd hs.length_le (by simp)

/-- The last node on the way up hangs nowhere. -/
theorem exists_getLast (h : Lineage up x l) : ∃ y, l.getLast? = some y ∧ up y = none := by
  induction h with
  | root hx => exact ⟨_, rfl, hx⟩
  | @step x p l hx k ih =>
      obtain ⟨y, hy, hu⟩ := ih
      refine ⟨y, ?_, hu⟩
      rw [List.getLast?_cons, hy]
      rfl

theorem mem_iff (h : Lineage up x l) : y ∈ l ↔ Hangs up x y := by
  constructor
  · intro hy
    induction h with
    | root => rw [List.mem_singleton.mp hy]; exact .refl
    | step hx _ ih =>
        rcases List.mem_cons.mp hy with rfl | hy
        · exact .refl
        · exact .head hx (ih hy)
  · intro hy
    induction hy using ReflTransGen.head_induction_on generalizing l with
    | refl => exact h.mem_self
    | head hx _ ih =>
        cases h with
        | root hx' => rw [hx'] at hx; cases hx
        | step hx' k =>
            obtain rfl := Option.some.inj (hx.symm.trans hx')
            exact List.mem_cons_of_mem _ (ih k)

/-- A way up is the same where the nodes on it hang from the same ones. -/
theorem congr {up' : α → Option α} (h : Lineage up x l) (hup : ∀ y ∈ l, up' y = up y) :
    Lineage up' x l := by
  induction h with
  | root hx => exact .root ((hup _ List.mem_cons_self).trans hx)
  | step hx _ ih =>
      exact .step ((hup _ List.mem_cons_self).trans hx)
        (ih fun y hy => hup y (List.mem_cons_of_mem _ hy))

theorem exists_eq_cons (h : Lineage up x l) : ∃ m, l = x :: m := by
  cases h with
  | root => exact ⟨[], rfl⟩
  | step => exact ⟨_, rfl⟩

theorem up_eq_head? (h : Lineage up x (x :: l)) : up x = l.head? := by
  cases h with
  | root hx => exact hx
  | step hx k =>
      obtain ⟨m, rfl⟩ := k.exists_eq_cons
      exact hx

/-- A way up goes on where its last node is hung from another one. -/
theorem append {up' : α → Option α} (h : Lineage up x l) (hy : l.getLast? = some y)
    (hup : ∀ z ∈ l, z ≠ y → up' z = up z) {z : α} (hz : up' y = some z) (hm : Lineage up' z m) :
    Lineage up' x (l ++ m) := by
  induction h with
  | root =>
      obtain rfl := Option.some.inj hy
      exact .step hz hm
  | @step x p l hx k ih =>
      obtain ⟨n, rfl⟩ := k.exists_eq_cons
      have hxy : x ≠ y := fun e => (List.nodup_cons.mp (k.step hx).nodup).1
        (e ▸ List.mem_of_getLast? ((List.getLast?_cons_cons ..).symm.trans hy))
      refine .step ((hup x List.mem_cons_self hxy).trans hx) (ih ?_ fun z hz => ?_)
      · rwa [List.getLast?_cons_cons] at hy
      · exact hup z (List.mem_cons_of_mem _ hz)

/-- Where a node is cut off, the way up ends before it. -/
theorem takeWhile [DecidableEq α] {up' : α → Option α} {c : α} (h : Lineage up x l) (hxc : x ≠ c)
    (hup : ∀ y, up' y = if up y = some c then none else up y) :
    Lineage up' x (l.takeWhile (· ≠ c)) := by
  induction h with
  | @root x hx =>
      rw [List.takeWhile_cons_of_pos (by simpa using hxc), List.takeWhile_nil]
      exact .root (by rw [hup, hx]; rfl)
  | @step x p l hx k ih =>
      rw [List.takeWhile_cons_of_pos (by simpa using hxc)]
      by_cases hpc : p = c
      · obtain ⟨m, rfl⟩ := k.exists_eq_cons
        rw [List.takeWhile_cons_of_neg (by simpa using hpc)]
        exact .root (by rw [hup, hx, hpc, if_pos rfl])
      · refine .step (p := p) ?_ (ih hpc)
        rw [hup, hx, if_neg fun e => hpc (Option.some.inj e)]

end Lineage

/-! ### Hanging -/

variable {x y z p c : α}

theorem Hangs.cases (h : Hangs up x y) : x = y ∨ ∃ p, up x = some p ∧ Hangs up p y :=
  ReflTransGen.cases_head h

theorem Hangs.step (h : up x = some p) (k : Hangs up p y) : Hangs up x y := .head h k

theorem Hangs.trans (h : Hangs up x y) (k : Hangs up y z) : Hangs up x z := ReflTransGen.trans h k

theorem Hangs.eq_of_root (h : Hangs up x y) (hx : up x = none) : x = y := by
  rcases h.cases with rfl | ⟨p, hp, -⟩
  · rfl
  · rw [hx] at hp; cases hp

/-- Of two nodes on the way up from a third, one is on the way up from the other. -/
theorem Hangs.total (h : Hangs up x y) (k : Hangs up x z) : Hangs up y z ∨ Hangs up z y := by
  induction h using ReflTransGen.head_induction_on with
  | refl => exact .inl k
  | head hx hy ih =>
      rcases k.cases with rfl | ⟨p, hp, k⟩
      · exact .inr (.step hx hy)
      · obtain rfl := Option.some.inj (hx.symm.trans hp)
        exact ih k

/-- A node does not hang from what hangs from it. -/
theorem Rooted.not_hangs (h : Rooted up) (hx : up x = some p) : ¬ Hangs up p x := by
  intro hp
  obtain ⟨l, hl⟩ := h p
  have := (Lineage.step hx hl).nodup
  exact (List.nodup_cons.mp this).1 (hl.mem_iff.mpr hp)

/-- A rooted forest has no cycle. -/
theorem Rooted.acyclic (h : Rooted up) (x : α) : ¬ TransGen (fun x p => up x = some p) x x := by
  intro hx
  obtain ⟨p, hp, hpx⟩ := TransGen.head'_iff.mp hx
  exact h.not_hangs hp hpx

/-- Two children of one node have nothing below them in common. -/
theorem Rooted.branch_unique (h : Rooted up) (hc : up y = some p) (hd : up z = some p)
    (hxy : Hangs up x y) (hxz : Hangs up x z) : y = z := by
  rcases hxy.total hxz with k | k
  · rcases k.cases with rfl | ⟨q, hq, k⟩
    · rfl
    · obtain rfl := Option.some.inj (hc.symm.trans hq)
      exact absurd k (h.not_hangs hd)
  · rcases k.cases with rfl | ⟨q, hq, k⟩
    · rfl
    · obtain rfl := Option.some.inj (hd.symm.trans hq)
      exact absurd k (h.not_hangs hc)

/-! ### Branches -/

/-- Whether nodes are those that hang from a node, itself among them, each once. -/
def IsBranch (up : α → Option α) (x : α) (xs : List α) : Prop :=
  xs.Nodup ∧ ∀ y, y ∈ xs ↔ Hangs up y x

variable {cs : List α} {xss : List (List α)}

/-- The branches of nodes that have nothing below them in common. -/
theorem IsBranch.flatten (h : List.Forall₂ (IsBranch up) cs xss)
    (hcs : cs.Pairwise fun c d => ∀ y, Hangs up y c → ¬ Hangs up y d) :
    xss.flatten.Nodup ∧ ∀ y, y ∈ xss.flatten ↔ ∃ c ∈ cs, Hangs up y c := by
  induction h with
  | nil => exact ⟨List.nodup_nil, by simp⟩
  | @cons c xs cs xss hxs _ ih =>
      obtain ⟨hc, hcs⟩ := List.pairwise_cons.mp hcs
      obtain ⟨hnd, hmem⟩ := ih hcs
      refine ⟨List.nodup_append.mpr ⟨hxs.1, hnd, ?_⟩, fun y => by simp [hxs.2, hmem]⟩
      rintro y hy _ hy' rfl
      obtain ⟨d, hd, hyd⟩ := (hmem y).mp hy'
      exact hc d hd y ((hxs.2 y).mp hy) hyd

/-- The branch of a node is the node, and the branches of its children. -/
theorem Rooted.isBranch_cons (h : Rooted up) (hnd : cs.Nodup)
    (hchild : ∀ c, c ∈ cs ↔ up c = some x) (hcs : List.Forall₂ (IsBranch up) cs xss) :
    IsBranch up x (x :: xss.flatten) := by
  obtain ⟨hxs, hmem⟩ := IsBranch.flatten hcs <| hnd.imp_of_mem fun hc hd hcd y hyc hyd =>
    hcd (h.branch_unique ((hchild _).mp hc) ((hchild _).mp hd) hyc hyd)
  refine ⟨List.nodup_cons.mpr ⟨fun hx => ?_, hxs⟩, fun y => ?_⟩
  · obtain ⟨c, hc, hxc⟩ := (hmem x).mp hx
    exact h.not_hangs ((hchild c).mp hc) hxc
  · rw [List.mem_cons, hmem]
    constructor
    · rintro (rfl | ⟨c, hc, hyc⟩)
      · exact .refl
      · exact hyc.tail ((hchild c).mp hc)
    · intro hy
      rcases ReflTransGen.cases_tail hy with rfl | ⟨c, hyc, hc⟩
      · exact .inl rfl
      · exact .inr ⟨c, (hchild c).mpr hc, hyc⟩

/-- Different nodes that hang nowhere have nothing below them in common. -/
theorem pairwise_of_roots (hnd : cs.Nodup) (hroot : ∀ c ∈ cs, up c = none) :
    cs.Pairwise fun c d => ∀ y, Hangs up y c → ¬ Hangs up y d :=
  hnd.imp_of_mem fun hc hd hcd y hyc hyd => by
    rcases hyc.total hyd with k | k
    · exact hcd (k.eq_of_root (hroot _ hc))
    · exact hcd (k.eq_of_root (hroot _ hd)).symm

/-! ### Going down

Where no way up is longer than some length, one can also go down step by step to an end. -/

/-- What holds of a node when it holds of all nodes right below it holds of every node. -/
theorem Rooted.induction_down (h : Rooted up) {n : Nat}
    (hn : ∀ x l, Lineage up x l → l.length ≤ n) {P : α → Prop}
    (step : ∀ x, (∀ c, up c = some x → P c) → P x) (x : α) : P x := by
  obtain ⟨l, hl⟩ := h x
  -- the induction is on how much longer a way up could be
  induction hk : n - l.length generalizing x l with
  | zero =>
      refine step x fun c hc => ?_
      have := hn c _ (.step hc hl)
      have := hn x l hl
      simp only [List.length_cons] at *
      omega
  | succ k ih =>
      refine step x fun c hc => ih c _ (.step hc hl) ?_
      simp only [List.length_cons]
      omega

/-- Going down along one child of each node comes to an end. -/
theorem Rooted.down (h : Rooted up) {n : Nat} (hn : ∀ x l, Lineage up x l → l.length ≤ n)
    {down : α → Option α} (hd : ∀ p c, down p = some c → up c = some p) : Rooted down := by
  intro x
  induction x using h.induction_down hn with
  | step x ih =>
      cases hx : down x with
      | none => exact ⟨_, .root hx⟩
      | some c =>
          obtain ⟨l, hl⟩ := ih c (hd x c hx)
          exact ⟨_, .step hx hl⟩

/-- A way down along children is a way up in the other direction. -/
theorem Hangs.reverse {down : α → Option α} (hd : ∀ p c, down p = some c → up c = some p)
    (h : Hangs down x y) : Hangs up y x := by
  induction h using ReflTransGen.head_induction_on with
  | refl => exact .refl
  | head ha _ ih => exact ih.tail (hd _ _ ha)

/-! ### Cutting and grafting -/

/-- Links may be cut. -/
theorem Rooted.shrink {up' : α → Option α} (h : Rooted up)
    (hup : ∀ x, up' x = up x ∨ up' x = none) : Rooted up' := by
  intro x
  obtain ⟨l, hl⟩ := h x
  induction hl with
  | root hx => exact ⟨_, .root ((hup _).elim (·.trans hx) id)⟩
  | step hx _ ih =>
      rcases hup _ with hx' | hx'
      · obtain ⟨m, hm⟩ := ih
        exact ⟨_, .step (hx'.trans hx) hm⟩
      · exact ⟨_, .root hx'⟩

/-- What hangs after links were cut hung before. -/
theorem Hangs.of_shrink {up' : α → Option α} (hup : ∀ x, up' x = up x ∨ up' x = none)
    (h : Hangs up' x y) : Hangs up x y := by
  refine ReflTransGen.mono (fun a b hab => ?_) x y h
  rcases hup a with ha | ha
  · rw [← ha, hab]
  · rw [ha] at hab; cases hab

/-- A node that hangs nowhere may be hung below one that does not hang from it. -/
theorem Rooted.graft {up' : α → Option α} (h : Rooted up) (hpc : ¬ Hangs up p c)
    (hc : up' c = some p) (hup : ∀ x, x ≠ c → up' x = up x) : Rooted up' := by
  -- first the nodes that do not hang from `c`, among them `p`
  have away : ∀ x, ¬ Hangs up x c → ∃ l, Lineage up' x l := by
    intro x hx
    obtain ⟨l, hl⟩ := h x
    induction hl with
    | root hy => exact ⟨_, .root ((hup _ fun e => hx (e ▸ .refl)).trans hy)⟩
    | step hy _ ih =>
        obtain ⟨m, hm⟩ := ih fun k => hx (.step hy k)
        exact ⟨_, .step ((hup _ fun e => hx (e ▸ .refl)).trans hy) hm⟩
  obtain ⟨m, hm⟩ := away p hpc
  intro x
  obtain ⟨l, hl⟩ := h x
  induction hl with
  | @root y hy =>
      by_cases e : y = c
      · subst e; exact ⟨_, .step hc hm⟩
      · exact ⟨_, .root ((hup _ e).trans hy)⟩
  | @step y q _ hy _ ih =>
      by_cases e : y = c
      · subst e; exact ⟨_, .step hc hm⟩
      · obtain ⟨n, hn⟩ := ih
        exact ⟨_, .step ((hup _ e).trans hy) hn⟩

/-- When `c` is hung below `p` in the place of another child `d`, nothing that hangs from `c` hangs
from `d`. -/
theorem Rooted.not_hangs_displaced {up' : α → Option α} {d t : α} (h : Rooted up)
    (hd : up d = some p) (hpc : ¬ Hangs up p c) (hdc : d ≠ c) (hd' : up' d = none)
    (hc' : up' c = some p) (hup : ∀ x, x ≠ c → x ≠ d → up' x = up x) (ht : Hangs up' t c) :
    ¬ Hangs up' t d := by
  intro k
  have hcd : Hangs up' c d := by
    rcases ht.total k with hcd | hdc'
    · exact hcd
    · exact absurd (hdc'.eq_of_root hd') hdc
  have hpd : Hangs up' p d := by
    rcases hcd.cases with e | ⟨q, hq, hqd⟩
    · exact absurd e.symm hdc
    · obtain rfl := Option.some.inj (hc'.symm.trans hq)
      exact hqd
  -- up to `d` the way from `p` is the one there was before
  have back : ∀ x, ¬ Hangs up x c → Hangs up' x d → Hangs up x d := by
    intro x hx hxd
    induction hxd using ReflTransGen.head_induction_on with
    | refl => exact .refl
    | @head a b ha _ ih =>
        have had : a ≠ d := fun e => by rw [e, hd'] at ha; cases ha
        rw [hup a (fun e => hx (e ▸ .refl)) had] at ha
        exact .step ha (ih fun hb => hx (.step ha hb))
  exact h.not_hangs hd (back p hpc hpd)

end Blockwork.Forest
