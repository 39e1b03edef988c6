import Blockwork.Proofs.Copying

/-!
# What detaching leaves of each block

A block that is cut off is gone from the one slot that it is in, and from nowhere else: the block
that led to it loses its link to it (`Block.lose`), and all else that blocks say stays as it is
(`Sound.block?_cut`, `block?_cut_next`).  Putting a block behind another one writes the link between
the two and nothing else (`block?_bind_next`).
-/

namespace Blockwork

open Forest (Lineage Hangs)

namespace Block

variable {b : Block} {x : String} {s : Slot}

/-- The block without its link to another one. -/
def lose (b : Block) (x : String) : Block :=
  { b with
    inputs := b.inputs.filter (·.2 ≠ .text x)
    next := if b.next = .text x then .null else b.next }

@[simp] theorem next_lose (b : Block) (x : String) :
    (b.lose x).next = if b.next = .text x then .null else b.next := rfl

@[simp] theorem parent_lose (b : Block) (x : String) : (b.lose x).parent = b.parent := rfl

@[simp] theorem parentInput_lose (b : Block) (x : String) :
    (b.lose x).parentInput = b.parentInput := rfl

@[simp] theorem position_lose (b : Block) (x : String) : (b.lose x).position = b.position := rfl

theorem Shaped.lose_eq_self (h : b.Shaped) (hx : ∀ s, b.child? s ≠ some x) : b.lose x = b := by
  have hinputs : b.inputs.filter (·.2 ≠ .text x) = b.inputs := by
    refine List.filter_eq_self.mpr fun e he => decide_eq_true fun hy => ?_
    obtain ⟨s, y, rfl⟩ := h.inputs e he
    obtain rfl := Value.text.inj hy
    exact hx (some s) (h.mem_inputs.mp he)
  have hnext : b.next ≠ .text x := fun hn => hx none (by rw [child?, hn]; rfl)
  rw [lose, hinputs, if_neg hnext]

/-- A block that is in one slot is lost from there. -/
theorem Shaped.lose_eq_vacate (h : b.Shaped) (hs : b.child? s = some x)
    (hu : ∀ t, b.child? t = some x → t = s) : b.lose x = b.vacate s := by
  cases s with
  | none =>
      have hinputs : b.inputs.filter (·.2 ≠ .text x) = b.inputs := by
        refine List.filter_eq_self.mpr fun e he => decide_eq_true fun hy => ?_
        obtain ⟨t, y, rfl⟩ := h.inputs e he
        obtain rfl := Value.text.inj hy
        exact nomatch hu (some t) (h.mem_inputs.mp he)
      have hnext : b.next = .text x := by rw [h.next_eq, hs]; rfl
      rw [lose, hinputs, if_pos hnext]
      rfl
  | some s =>
      have hinputs : b.inputs.filter (·.2 ≠ .text x) = Entries.erase b.inputs (.text s) := by
        refine List.filter_congr fun e he => ?_
        obtain ⟨t, y, rfl⟩ := h.inputs e he
        have hy := h.mem_inputs.mp he
        by_cases hts : t = s
        · obtain rfl : y = x := by rw [hts, hs] at hy; exact (Option.some.inj hy).symm
          simp [hts]
        · have hyx : y ≠ x := fun e => hts (Option.some.inj (hu (some t) (e ▸ hy)))
          simp [hts, hyx]
      have hnext : b.next ≠ .text x := fun hn => nomatch hu none (by rw [child?, hn]; rfl)
      rw [lose, hinputs, if_neg hnext]
      rfl

theorem Shaped.loosen_eq_self (h : b.Shaped) (hb : b.seat? = none) : b.loosen = b := by
  obtain ⟨hp, hi⟩ := h.parent_of_seat?_none hb
  cases b
  dsimp only at hp hi
  subst hp hi
  rfl

end Block

namespace Workspace

variable {w : Workspace} {x y p c : String} {s : Slot}

/-! ### Cutting off -/

/-- Where a block is cut off, the block it hung from loses its link to it, and it says of no other
one that it hangs from it. -/
theorem Sound.block?_cut (h : w.Sound) (x y : String) : (w.cut x).block? y =
    (w.block? y).map fun b => if y = x then (b.lose x).loosen else b.lose x := by
  cases hy : w.block? y with
  | none => exact ((sameCore_cut w x).block?_eq_none).mpr hy
  | some b =>
      have hsh := h.shaped y b hy
      have hchild (s : Slot) : b.child? s = some x ↔ w.seat? x = some (y, s) := by
        rw [← h.linked y s x, child?, hy, Option.bind_some]
      rw [Option.map_some]
      cases hx : w.seat? x with
      | none =>
          have hlose : b.lose x = b := hsh.lose_eq_self fun s hs => by
            rw [hchild, hx] at hs
            cases hs
          rw [cut_of_seat?_none hx, hy, hlose]
          split
          · rename_i hyx
            subst hyx
            rw [hsh.loosen_eq_self (by rwa [seat?, hy] at hx)]
          · rfl
      | some q =>
          obtain ⟨p, s⟩ := q
          have hpx : p ≠ x := fun e => h.rooted.not_hangs (above?_eq_some.mpr ⟨s, hx⟩) (e ▸ .refl)
          have hlose : b.lose x = if p = y then b.vacate s else b := by
            split
            · rename_i hpy
              subst hpy
              refine hsh.lose_eq_vacate ((hchild s).mpr hx) fun t ht => ?_
              rw [hchild, hx] at ht
              exact (congrArg Prod.snd (Option.some.inj ht)).symm
            · rename_i hpy
              refine hsh.lose_eq_self fun t => ?_
              rw [Ne, hchild, hx]
              exact fun e => hpy (congrArg Prod.fst (Option.some.inj e))
          have hcut : w.cut x = (w.edit p (·.vacate s)).edit x (·.loosen) := by
            rw [Workspace.cut, hx]
          rw [hcut, block?_edit, block?_edit, hy, hlose]
          by_cases hyx : y = x
          · subst hyx
            simp [hpx]
          · by_cases hpy : p = y <;> simp [hpy, hyx, Ne.symm hyx]

/-- Where a block is cut off from behind another one, the two are all that is changed. -/
theorem block?_cut_next (hx : w.seat? x = some (p, none)) (y : String) : (w.cut x).block? y =
    (w.block? y).map fun b => { b with
      next := if y = p then .null else b.next
      parent := if y = x then .null else b.parent
      parentInput := if y = x then .null else b.parentInput } := by
  have hcut : w.cut x = (w.edit p (·.vacate none)).edit x (·.loosen) := by rw [cut, hx]
  rw [hcut, block?_edit, block?_edit]
  cases w.block? y with
  | none => simp
  | some b =>
      by_cases hyp : p = y <;> by_cases hyx : x = y <;>
        simp [hyp, hyx, eq_comm, Block.vacate, Block.loosen]

/-- Putting a block behind another one writes the link between them. -/
theorem block?_bind_next (w : Workspace) (p c y : String) : (w.bind p none c).block? y =
    (w.block? y).map fun b => { b with
      next := if y = p then .text c else b.next
      parent := if y = c then .text p else b.parent
      parentInput := if y = c then .null else b.parentInput } := by
  rw [bind, block?_edit, block?_edit]
  cases w.block? y with
  | none => simp
  | some b =>
      by_cases hyp : p = y <;> by_cases hyc : c = y <;>
        simp [hyp, hyc, eq_comm, Block.occupy, Block.settle, Value.ofText?]

/-! ### What is besides the blocks -/

theorem keys_cut (w : Workspace) (x : String) :
    (w.cut x).entries.map (·.1) = w.entries.map (·.1) := by
  unfold cut
  split
  · rfl
  · rw [keys_edit, keys_edit]

/-- Whether two workspaces are the same but for their blocks. -/
def Retabled (w w' : Workspace) : Prop := w' = { w with table := w'.table }

theorem Retabled.trans {w' w'' : Workspace} (h : w.Retabled w') (k : w'.Retabled w'') :
    w.Retabled w'' := by
  rw [Retabled, h] at k
  exact k

theorem Retabled.muted {w' : Workspace} (h : w.Retabled w') : w'.muted = w.muted :=
  (congrArg Workspace.muted (h : w' = { w with table := w'.table }) :)

theorem Retabled.dragging {w' : Workspace} (h : w.Retabled w') : w'.dragging = w.dragging :=
  (congrArg Workspace.dragging (h : w' = { w with table := w'.table }) :)

theorem retabled_edit (w : Workspace) (x : String) (f : Block → Block) : w.Retabled (w.edit x f) :=
  rfl

theorem retabled_cut (w : Workspace) (x : String) : w.Retabled (w.cut x) := by
  unfold cut
  split <;> rfl

theorem retabled_bind (w : Workspace) (p : String) (s : Slot) (c : String) :
    w.Retabled (w.bind p s c) := rfl

theorem retabled_discard (w : Workspace) (xs : List String) : w.Retabled (w.discard xs) := by
  induction xs generalizing w with
  | nil => rfl
  | cons x xs ih =>
      have hdrop : w.Retabled (w.drop x) := rfl
      exact hdrop.trans (ih (w.drop x))

end Workspace

end Blockwork
