import Blockwork.Proofs.Sound

/-!
# Walks in sound workspaces

No walk in a sound workspace is cut short by the number of steps it is given: the way up from a
block, the chain behind it and the blocks below it all end before that.  So a walk up finds just
what a block hangs from (`Sound.hangsFrom_eq`), a walk along the chain comes to its end
(`Sound.exists_chain`), and a walk down meets each block that hangs from the first one, and each
once (`Sound.exists_descendants`).
-/

namespace Blockwork

open Forest (Rooted Hangs Lineage IsBranch)

/-- When each item has an answer, there is a list of answers. -/
theorem exists_mapM {ε α β : Type} {f : α → Except ε β} {P : α → β → Prop} {as : List α}
    (h : ∀ a ∈ as, ∃ b, f a = .ok b ∧ P a b) :
    ∃ bs, as.mapM f = .ok bs ∧ List.Forall₂ P as bs := by
  induction as with
  | nil => exact ⟨[], rfl, .nil⟩
  | cons a as ih =>
      obtain ⟨b, hb, hp⟩ := h a List.mem_cons_self
      obtain ⟨bs, hbs, hps⟩ := ih fun a' ha => h a' (List.mem_cons_of_mem _ ha)
      refine ⟨b :: bs, ?_, .cons hp hps⟩
      rw [List.mapM_cons, hb]
      change (do let bs ← as.mapM f; pure (b :: bs)) = _
      rw [hbs]
      rfl

theorem exists_mapM_ok {ε α β : Type} {f : α → Except ε β} {as : List α}
    (h : ∀ a ∈ as, ∃ b, f a = .ok b) : ∃ bs, as.mapM f = .ok bs := by
  obtain ⟨bs, hbs, -⟩ := exists_mapM (P := fun _ _ => True) fun a ha => by
    obtain ⟨b, hb⟩ := h a ha
    exact ⟨b, hb, trivial⟩
  exact ⟨bs, hbs⟩

/-- Lists that correspond item by item correspond in their last items. -/
theorem getLast?_of_forall₂ {α β : Type} {R : α → β → Prop} {as : List α} {bs : List β} {a : α}
    (h : List.Forall₂ R as bs) (ha : as.getLast? = some a) : ∃ b, bs.getLast? = some b ∧ R a b := by
  induction h generalizing a with
  | nil => cases ha
  | @cons a' b' as bs hr hs ih =>
      cases hs with
      | nil =>
          cases ha
          exact ⟨_, rfl, hr⟩
      | cons hr' hs' =>
          obtain ⟨b, hb, hab⟩ := ih (by rwa [List.getLast?_cons_cons] at ha)
          exact ⟨b, by rwa [List.getLast?_cons_cons], hab⟩

theorem map_eq_of_forall₂ {α β γ : Type} {R : α → β → Prop} {as : List α} {bs : List β}
    {f : α → γ} {g : β → γ} (h : List.Forall₂ R as bs) (hfg : ∀ a b, R a b → g b = f a) :
    bs.map g = as.map f := by
  induction h with
  | nil => rfl
  | cons hr _ ih => rw [List.map_cons, List.map_cons, hfg _ _ hr, ih]

/-- Lists that correspond to one list correspond to each other. -/
theorem forall₂_of_common {α β γ : Type} {R : γ → α → Prop} {S : γ → β → Prop} {as : List α}
    {bs : List β} {cs : List γ} (h : List.Forall₂ R cs as) (k : List.Forall₂ S cs bs) :
    List.Forall₂ (fun a b => ∃ c, R c a ∧ S c b) as bs := by
  induction h generalizing bs with
  | nil =>
      cases k
      exact .nil
  | cons hr _ ih =>
      cases k with
      | cons hs k => exact .cons ⟨_, hr, hs⟩ (ih k)

/-- What corresponds to an item of the second of two lists is an item of the first. -/
theorem exists_of_mem_forall₂ {α β : Type} {R : α → β → Prop} {as : List α} {bs : List β} {b : β}
    (h : List.Forall₂ R as bs) (hb : b ∈ bs) : ∃ a ∈ as, R a b := by
  induction h with
  | nil => cases hb
  | @cons a b' as bs hr _ ih =>
      rcases List.mem_cons.mp hb with rfl | hb
      · exact ⟨a, List.mem_cons_self, hr⟩
      · obtain ⟨a', ha, hab⟩ := ih hb
        exact ⟨a', List.mem_cons_of_mem a ha, hab⟩

/-- When something corresponds to each item, a list corresponds to the list. -/
theorem exists_forall₂ {α β : Type} {R : α → β → Prop} {bs : List β}
    (h : ∀ b ∈ bs, ∃ a, R a b) : ∃ as, List.Forall₂ R as bs := by
  induction bs with
  | nil => exact ⟨[], .nil⟩
  | cons b bs ih =>
      obtain ⟨a, ha⟩ := h b List.mem_cons_self
      obtain ⟨as, has⟩ := ih fun b' hb => h b' (List.mem_cons_of_mem _ hb)
      exact ⟨a :: as, .cons ha has⟩

/-- Rows of the names of what is on branches. -/
theorem exists_rows {up : String → Option String} {cs : List String} {idss : List (List Value)}
    (h : List.Forall₂ (fun c ids => ∃ xs : List String, ids = xs.map .text ∧ IsBranch up c xs)
      cs idss) :
    ∃ xss : List (List String), idss = xss.map (·.map .text) ∧
      List.Forall₂ (IsBranch up) cs xss := by
  induction h with
  | nil => exact ⟨[], rfl, .nil⟩
  | cons hids _ ih =>
      obtain ⟨xs, rfl, hxs⟩ := hids
      obtain ⟨xss, rfl, hxss⟩ := ih
      exact ⟨xs :: xss, rfl, .cons hxs hxss⟩

namespace Workspace

variable {w : Workspace}

/-! ### The number of blocks -/

theorem find?_of_mem_entries {k : Key} {b : Block} (hm : (k, b) ∈ w.entries) :
    w.find? k = some b := by
  rw [find?, Table.find?_eq, Entries.get?]
  obtain ⟨e, he⟩ : ∃ e, w.entries.find? (·.1 == k) = some e :=
    Option.isSome_iff_exists.mp (List.find?_isSome.mpr ⟨_, hm, BEq.rfl⟩)
  have hk : (e.1 == k) = true := (List.find?_some he :)
  have := List.inj_on_of_nodup_map w.table.distinct (List.mem_of_find?_eq_some he) hm
    ((Key.beq_iff_name ..).mp hk)
  rw [← entries, he, this]
  rfl

theorem exists_mem_entries {k : Key} {b : Block} (h : w.find? k = some b) :
    ∃ j, (j, b) ∈ w.entries ∧ (j == k) = true :=
  Entries.exists_mem_of_get? ((Table.find?_eq _ _).symm.trans h)

theorem mem_blocks {k : Key} {b : Block} (h : w.find? k = some b) : b ∈ w.blocks := by
  obtain ⟨j, hj, -⟩ := exists_mem_entries h
  exact List.mem_map_of_mem hj

theorem mem_entries {x : String} {b : Block} :
    (Key.text x, b) ∈ w.entries ↔ w.block? x = some b := by
  constructor
  · exact find?_of_mem_entries
  · intro hf
    obtain ⟨j, hj, hjx⟩ := exists_mem_entries hf
    rwa [Key.beq_text_iff.mp hjx] at hj

/-- There are no more different names of blocks than blocks. -/
theorem length_le_size {l : List String} (hl : l.Nodup)
    (hb : ∀ x ∈ l, (w.block? x).isSome) : l.length ≤ w.size := by
  have hsub : l.map Key.text ⊆ w.entries.map (·.1) := by
    intro k hk
    obtain ⟨x, hx, rfl⟩ := List.mem_map.mp hk
    obtain ⟨b, hb⟩ := Option.isSome_iff_exists.mp (hb x hx)
    exact List.mem_map.mpr ⟨_, mem_entries.mpr hb, rfl⟩
  have hnd : (l.map Key.text).Nodup := hl.map fun _ _ => Key.text.inj
  have := hnd.length_le_of_subset hsub
  rw [List.length_map, List.length_map] at this
  exact Nat.le_trans this (Nat.le_of_eq w.table.size_eq.symm)

/-- The block behind a block. -/
def next? (w : Workspace) (x : String) : Option String := w.child? x none

/-- Whether no more than `n` values are plugged into one another, the block itself among them. -/
def Nests (w : Workspace) : Nat → String → Prop
  | 0, _ => False
  | n + 1, x => ∀ s c, w.child? x (some s) = some c → Nests w n c

/-- Whether blocks are those that hang from a block, itself among them, each once. -/
def IsBelow (w : Workspace) (x : String) (bs : List Block) : Prop :=
  ∃ xs : List String, bs.map (·.id) = xs.map .text ∧ xs.Nodup ∧ ∀ y, y ∈ xs ↔ Hangs w.above? y x

namespace Sound

variable {x y p c : String} {s : Slot} {b : Block}

/-- What is in a slot is there. -/
theorem isSome_child (h : w.Sound) (hc : w.child? p s = some c) : (w.block? c).isSome := by
  obtain ⟨b, hb, -⟩ := seat?_eq_some.mp ((h.linked p s c).mp hc)
  simp [hb]

/-- What a block hangs from is there. -/
theorem isSome_parent (h : w.Sound) (hc : w.seat? c = some (p, s)) : (w.block? p).isSome := by
  obtain ⟨b, hb, -⟩ := child?_eq_some.mp ((h.linked p s c).mpr hc)
  simp [hb]

theorem next_ne_empty (h : w.Sound) (hb : w.block? x = some b) : b.next ≠ .text "" := fun he => by
  have hc : w.child? x none = some "" := child?_eq_some.mpr ⟨b, hb, by simp [Block.child?, he]⟩
  obtain ⟨d, hd⟩ := Option.isSome_iff_exists.mp (h.isSome_child hc)
  exact h.ne_empty hd rfl

theorem isSome_of_hangs (h : w.Sound) (hxy : Hangs w.above? x y) (hx : (w.block? x).isSome) :
    (w.block? y).isSome := by
  induction hxy using Relation.ReflTransGen.head_induction_on with
  | refl => exact hx
  | head hp _ ih =>
      obtain ⟨s, hs⟩ := above?_eq_some.mp hp
      exact ih (h.isSome_parent hs)

theorem above?_of_child? (h : w.Sound) (hc : w.child? p s = some c) : w.above? c = some p :=
  above?_eq_some.mpr ⟨s, (h.linked p s c).mp hc⟩

/-- The way up from a block is no longer than there are blocks. -/
theorem length_lineage_le (h : w.Sound) {l : List String} (hl : Lineage w.above? x l)
    (hx : (w.block? x).isSome) : l.length ≤ w.size :=
  length_le_size hl.nodup fun _ hy => h.isSome_of_hangs (hl.mem_iff.mp hy) hx

theorem length_lineage_le_succ (h : w.Sound) (x : String) (l : List String)
    (hl : Lineage w.above? x l) : l.length ≤ w.size + 1 := by
  cases hl with
  | root => simp
  | step hx hl =>
      obtain ⟨s, hs⟩ := above?_eq_some.mp hx
      have := h.length_lineage_le hl (h.isSome_parent hs)
      simp only [List.length_cons]
      omega

/-! ### Up -/

theorem reachesUp_eq (h : w.Sound) {l : List String} (hl : Lineage w.above? x l)
    (hx : (w.block? x).isSome) {n : Nat} (hn : l.length ≤ n) (y : String) :
    w.reachesUp (.text y) n (.text x) = .ok (decide (y ∈ l)) := by
  induction hl generalizing n with
  | @root x hr =>
      obtain ⟨n, rfl⟩ := Nat.exists_eq_succ_of_ne_zero (Nat.pos_iff_ne_zero.mp hn)
      obtain ⟨b, hb⟩ := Option.isSome_iff_exists.mp hx
      have hp : b.parent = .null := by rw [h.parent_eq hb, hr]; rfl
      rw [block?] at hb
      simp only [reachesUp, hb, h.id_eq hb, Value.same_text, hp, Value.isTruthy, List.mem_singleton]
      by_cases hxy : x = y
      · simp [hxy, pure, Except.pure]
      · simp [hxy, Ne.symm hxy, pure, Except.pure]
  | @step x p l hr hl ih =>
      obtain ⟨n, rfl⟩ := Nat.exists_eq_succ_of_ne_zero (Nat.ne_zero_of_lt hn)
      obtain ⟨b, hb⟩ := Option.isSome_iff_exists.mp hx
      obtain ⟨s, hs⟩ := above?_eq_some.mp hr
      have hp : b.parent = .text p := by rw [h.parent_eq hb, hr]; rfl
      have hpb := h.isSome_parent hs
      obtain ⟨d, hd⟩ := Option.isSome_iff_exists.mp hpb
      have ht : b.parent.isTruthy = true := by
        simpa [hp, Value.isTruthy] using h.ne_empty hd
      rw [block?] at hb
      simp only [reachesUp, hb, h.id_eq hb, Value.same_text, ht, if_true, List.mem_cons]
      by_cases hxy : x = y
      · simp [hxy, pure, Except.pure]
      · rw [hp, Value.toKey_text]
        change (if decide (x = y) = true then _ else w.reachesUp (.text y) n (.text p)) = _
        rw [ih hpb (Nat.le_of_succ_le_succ hn)]
        simp [hxy, Ne.symm hxy]

/-- A walk up finds just the blocks that a block hangs from. -/
theorem hangsFrom_eq (h : w.Sound) (hx : (w.block? x).isSome) (y : String) :
    ∃ r, w.hangsFrom (.text y) (.text x) = .ok r ∧ (r = true ↔ Hangs w.above? x y) := by
  obtain ⟨l, hl⟩ := h.rooted x
  refine ⟨decide (y ∈ l), h.reachesUp_eq hl hx (h.length_lineage_le hl hx) y, ?_⟩
  rw [decide_eq_true_iff, hl.mem_iff]

/-! ### Along a chain -/

theorem rooted_next (h : w.Sound) : Rooted w.next? :=
  h.rooted.down h.length_lineage_le_succ fun _ _ hc => h.above?_of_child? hc

theorem chainFrom_eq (h : w.Sound) {m : List String} (hm : Lineage w.next? x m)
    (hx : (w.block? x).isSome) {n : Nat} (hn : m.length ≤ n) :
    ∃ c, w.chainFrom n (.text x) = .ok c ∧
      List.Forall₂ (fun y e => e.1 = .text y ∧ w.block? y = some e.2) m c := by
  induction hm generalizing n with
  | @root x hr =>
      obtain ⟨n, rfl⟩ := Nat.exists_eq_succ_of_ne_zero (Nat.pos_iff_ne_zero.mp hn)
      obtain ⟨b, hb⟩ := Option.isSome_iff_exists.mp hx
      have hc : b.next = .null := by rw [h.next_eq hb, ← next?, hr]; rfl
      refine ⟨[(.text x, b)], ?_, .cons ⟨rfl, hb⟩ .nil⟩
      rw [block?] at hb
      simp [chainFrom, hb, hc, Value.isTruthy, pure, Except.pure]
  | @step x y l hy hl ih =>
      obtain ⟨n, rfl⟩ := Nat.exists_eq_succ_of_ne_zero (Nat.ne_zero_of_lt hn)
      obtain ⟨b, hb⟩ := Option.isSome_iff_exists.mp hx
      have hyb := h.isSome_child hy
      have hc : b.next = .text y := by rw [h.next_eq hb, ← next?, hy]; rfl
      obtain ⟨d, hd⟩ := Option.isSome_iff_exists.mp hyb
      have ht : b.next.isTruthy = true := by
        simpa [hc, Value.isTruthy] using h.ne_empty hd
      obtain ⟨c, hcs, hall⟩ := ih hyb (Nat.le_of_succ_le_succ hn)
      refine ⟨(.text x, b) :: c, ?_, .cons ⟨rfl, hb⟩ hall⟩
      rw [block?] at hb
      rw [chainFrom, hb]
      simp only [ht, if_true]
      rw [hc, Value.toKey_text]
      change (do let c ← w.chainFrom n (.text y); pure ((Key.text x, b) :: c)) = _
      rw [hcs]
      rfl

/-- A walk along the chain behind a block comes to its end. -/
theorem exists_chain (h : w.Sound) (hx : (w.block? x).isSome) :
    ∃ m c, Lineage w.next? x m ∧ w.chain (.text x) = .ok c ∧
      List.Forall₂ (fun y e => e.1 = .text y ∧ w.block? y = some e.2) m c := by
  obtain ⟨m, hm⟩ := h.rooted_next x
  have hn : m.length ≤ w.size := by
    refine length_le_size hm.nodup fun y hy => ?_
    rcases Relation.ReflTransGen.cases_tail (hm.mem_iff.mp hy) with rfl | ⟨z, -, hz⟩
    · exact hx
    · exact h.isSome_child hz
  obtain ⟨c, hc, hall⟩ := h.chainFrom_eq hm hx hn
  exact ⟨m, c, hm, hc, hall⟩

/-! ### Down -/

/-- Below a block is the block, and what is below its children. -/
theorem isBelow_cons (h : w.Sound) (hb : w.block? x = some b) {bss : List (List Block)}
    (hbss : List.Forall₂ w.IsBelow b.children bss) : w.IsBelow x (b :: bss.flatten) := by
  have hsh := h.shaped x b hb
  have hchild (c : String) : c ∈ b.children ↔ w.above? c = some x := by
    rw [hsh.mem_children, above?_eq_some]
    exact exists_congr fun s => by rw [← h.linked x s c, child?, hb, Option.bind_some]
  have hnd : b.children.Nodup := hsh.nodup_children fun s t c hs ht =>
    (h.linked.unique (child?_eq_some.mpr ⟨b, hb, hs⟩) (child?_eq_some.mpr ⟨b, hb, ht⟩)).2
  obtain ⟨xss, hids, hall⟩ := exists_rows (List.forall₂_map_right_iff.mpr hbss)
  refine ⟨x :: xss.flatten, ?_, h.rooted.isBranch_cons hnd hchild hall⟩
  rw [List.map_cons, List.map_cons, h.id_eq hb, List.map_flatten, hids, List.map_flatten]

theorem descendantsFrom_eq (h : w.Sound) {l : List String} (hl : Lineage w.above? x l)
    (hx : (w.block? x).isSome) {n : Nat} (hn : w.size < l.length + n) :
    ∃ bs, w.descendantsFrom n (.text x) = .ok bs ∧ w.IsBelow x bs := by
  induction n generalizing x l with
  | zero => exact absurd (h.length_lineage_le hl hx) (by omega)
  | succ n ih =>
      obtain ⟨b, hb⟩ := Option.isSome_iff_exists.mp hx
      have hsh := h.shaped x b hb
      have below (c : String) (hc : c ∈ b.children) :
          ∃ bs, (do w.descendantsFrom n (← (Value.text c).toKey)) = .ok bs ∧ w.IsBelow c bs := by
        obtain ⟨s, hs⟩ := hsh.mem_children.mp hc
        have hcx : w.child? x s = some c := child?_eq_some.mpr ⟨b, hb, hs⟩
        refine ih (.step (h.above?_of_child? hcx) hl) (h.isSome_child hcx) ?_
        simp only [List.length_cons]
        omega
      obtain ⟨bss, hbss, hall⟩ := exists_mapM below
      refine ⟨b :: bss.flatten, ?_, h.isBelow_cons hb hall⟩
      have hne := h.next_ne_empty hb
      rw [block?] at hb
      rw [descendantsFrom, hb]
      simp only [hsh.targets_eq hne, List.mapM_map]
      change (do
        let bss ← b.children.mapM fun c => do w.descendantsFrom n (← (Value.text c).toKey)
        pure (b :: bss.flatten)) = _
      rw [hbss]
      rfl

/-- A walk down meets the blocks that hang from the first one, each once. -/
theorem exists_descendants (h : w.Sound) (hx : (w.block? x).isSome) :
    ∃ bs, w.descendants (.text x) = .ok bs ∧ w.IsBelow x bs := by
  obtain ⟨l, hl⟩ := h.rooted x
  rw [descendants_eq]
  exact h.descendantsFrom_eq hl hx (Nat.lt_add_of_pos_left hl.length_pos)

end Sound

end Workspace

end Blockwork
