import Blockwork.Proofs.Detaching
import Blockwork.Proofs.Echoing
import Blockwork.Proofs.Needing
import Blockwork.Proofs.Ranking
import Blockwork.Proofs.Rearranging

/-!
# Inert parts

Nothing of a block that is turned off reaches the program, and nothing of what hangs from its
sockets: workspaces that differ in no more (`Workspace.Varies`) have one program.  Neither does it
matter whether the block is plugged in, as long as the positions of all blocks at the top can be
compared (`History.disabled_inert`).  Where one cannot be, a block that is let go can put others into
another order (`History.disabled_not_always_inert`).
-/

namespace Blockwork

open Forest (Lineage Hangs)

/-- Items that correspond are items of their lists. -/
theorem forall₂_with_mem {α β : Type} {R : α → β → Prop} {as : List α} {bs : List β}
    (h : List.Forall₂ R as bs) : List.Forall₂ (fun a b => a ∈ as ∧ b ∈ bs ∧ R a b) as bs := by
  have hright := ((List.forall₂_and_left _ _).mpr ⟨fun b (hb : b ∈ bs) => hb, h.flip⟩).flip
  exact (List.forall₂_and_left _ _).mpr ⟨fun a ha => ha, hright⟩

namespace Workspace

variable {w u : Workspace} {d x y : String} {b : Block} {s : Slot}

/-! ### What hangs from the sockets of a block -/

/-- Whether a block hangs, in some steps, from what is plugged into another one. -/
def Under (w : Workspace) (d x : String) : Prop :=
  ∃ name c, w.child? d (some name) = some c ∧ Hangs w.above? x c

theorem Sound.not_under_self (h : w.Sound) (d : String) : ¬ w.Under d d := by
  rintro ⟨name, c, hc, hdc⟩
  exact h.rooted.not_hangs (h.above?_of_child? hc) hdc

theorem Sound.not_under_root (h : w.Sound) (hx : w.above? x = none) : ¬ w.Under d x := by
  rintro ⟨name, c, hc, hxc⟩
  obtain rfl := hxc.eq_of_root hx
  rw [h.above?_of_child? hc] at hx
  cases hx

/-- What hangs from a block is below the same ones, but for what is in its own sockets. -/
theorem Sound.not_under_child (h : w.Sound) (hx : ¬ w.Under d x) (hy : w.child? x s = some y)
    (hs : x = d → s = none) : ¬ w.Under d y := by
  rintro ⟨name, c, hc, hyc⟩
  rcases hyc.cases with rfl | ⟨p, hp, hpc⟩
  · obtain ⟨rfl, rfl⟩ := h.linked.unique hy hc
    cases hs rfl
  · obtain rfl := Option.some.inj ((h.above?_of_child? hy).symm.trans hp)
    exact hx ⟨name, c, hc, hpc⟩

open Classical in
/-- The blocks that do not hang from the sockets of a block, in the order of their creation. -/
noncomputable def besides (w : Workspace) (d : String) : List (Key × Block) :=
  w.entries.filter fun e => ∀ x, e.1 = .text x → ¬ w.Under d x

theorem mem_besides (hb : w.block? x = some b) : (Key.text x, b) ∈ w.besides d ↔ ¬ w.Under d x := by
  simp [besides, mem_entries.mpr hb]

theorem Sound.exists_of_mem_besides (h : w.Sound) {e : Key × Block} (he : e ∈ w.besides d) :
    ∃ x, e.1 = .text x ∧ w.block? x = some e.2 ∧ ¬ w.Under d x := by
  obtain ⟨x, hx, hb⟩ := h.key_text (find?_of_mem_entries (List.mem_of_mem_filter he))
  refine ⟨x, hx, hb, (mem_besides hb).mp ?_⟩
  rw [← hx]
  exact he

/-- The blocks at the top are among them. -/
theorem Sound.tops_besides (h : w.Sound) (d : String) :
    w.blocks.filter (·.isTop) = ((w.besides d).filter (·.2.isTop)).map (·.2) := by
  rw [blocks, List.filter_map, besides, List.filter_filter]
  refine congrArg _ (List.filter_congr fun e he => ?_)
  obtain ⟨x, hx, hb⟩ := h.key_text (find?_of_mem_entries he)
  cases htop : e.2.isTop with
  | false => simp [htop]
  | true =>
      have hroot := (h.isTop_iff hb).mp htop
      simp [htop, hx, h.not_under_root hroot]

/-- Whether two workspaces differ in no more than the fields of a block, and in what hangs from its
sockets. -/
def Varies (d : String) (w u : Workspace) : Prop :=
  List.Forall₂ (fun e f => f.1 = e.1 ∧
    (f.2 = e.2 ∨ e.1 = .text d ∧ ∃ fields inputs, f.2 = { e.2 with fields, inputs }))
    (w.besides d) (u.besides d)

/-- Whether a block is there, and does not hang from the sockets of another one. -/
def Beside (w : Workspace) (d x : String) : Prop := (w.block? x).isSome ∧ ¬ w.Under d x

namespace Varies

variable (h : w.Varies d u) (hw : w.Sound) (hu : u.Sound)

include h hw hu

theorem forall₂ : List.Forall₂ (fun e f => ∃ x, e.1 = .text x ∧ w.block? x = some e.2 ∧
    u.block? x = some f.2 ∧ w.Beside d x ∧
      (f.2 = e.2 ∨ x = d ∧ ∃ fields inputs, f.2 = { e.2 with fields, inputs }))
    (w.besides d) (u.besides d) := by
  refine (forall₂_with_mem h).imp fun e f hef => ?_
  obtain ⟨he, hf, hkey, hsame⟩ := hef
  obtain ⟨x, hx, hb, hbeside⟩ := hw.exists_of_mem_besides he
  obtain ⟨y, hy, hc, -⟩ := hu.exists_of_mem_besides hf
  obtain rfl : y = x := by simpa [hx, hy] using hkey
  refine ⟨y, hx, hb, hc, ⟨by rw [hb]; rfl, hbeside⟩, hsame.imp_right fun hd => ⟨?_, hd.2⟩⟩
  simpa [hx] using hd.1

theorem exists_block (hx : ¬ w.Under d x) (hb : w.block? x = some b) : ∃ c, u.block? x = some c ∧
    (c = b ∨ x = d ∧ ∃ fields inputs, c = { b with fields, inputs }) := by
  obtain ⟨f, -, y, hy, -, hc, -, hsame⟩ :=
    exists_of_mem_forall₂ (h.forall₂ hw hu).flip ((mem_besides hb).mpr hx)
  obtain rfl : x = y := by simpa using hy
  exact ⟨f.2, hc, hsame⟩

/-- Where only what hangs from the sockets of a block that is turned off and its fields differ,
workspaces agree on all else. -/
theorem echoes (hv : u.vocabulary = w.vocabulary) (hb : w.block? d = some b)
    (hoff : b.isEnabled = false) : w.Echoes (w.Beside d) u := by
  have hon {x : String} {b' : Block} (hb' : w.block? x = some b') (he : b'.isEnabled = true) :
      x ≠ d := by
    rintro rfl
    obtain rfl := Option.some.inj (hb.symm.trans hb')
    rw [hoff] at he
    cases he
  have hchild {x y : String} {s : Slot} (hx : w.Beside d x) (hy : w.child? x s = some y)
      (hs : x = d → s = none) : w.Beside d y :=
    ⟨hw.isSome_child hy, hw.not_under_child hx.2 hy hs⟩
  have hnext {x : String} (hx : w.Beside d x) : u.next? x = w.next? x := by
    obtain ⟨b', hb'⟩ := Option.isSome_iff_exists.mp hx.1
    obtain ⟨c', hc', rfl | ⟨-, fields, inputs, rfl⟩⟩ := h.exists_block hw hu hx.2 hb'
    · rw [next?, next?, child?, child?, hb', hc']
    · rw [next?, next?, child?, child?, hb', hc']
      rfl
  have henabled {x : String} (hx : w.Beside d x) :
      (u.block? x).any (·.isEnabled) = (w.block? x).any (·.isEnabled) := by
    obtain ⟨b', hb'⟩ := Option.isSome_iff_exists.mp hx.1
    obtain ⟨c', hc', rfl | ⟨-, fields, inputs, rfl⟩⟩ := h.exists_block hw hu hx.2 hb'
    · rw [hb', hc']
    · rw [hb', hc']
      rfl
  exact
    { vocabulary := hv
      block? := fun {x} hx => by
        obtain ⟨b', hb'⟩ := Option.isSome_iff_exists.mp hx.1
        obtain ⟨c', hc', rfl | ⟨rfl, fields, inputs, rfl⟩⟩ := h.exists_block hw hu hx.2 hb'
        · rw [hb', hc']
          exact .some ⟨rfl, fun _ => ⟨rfl, rfl⟩⟩
        · rw [hb', hc']
          exact .some ⟨rfl, fun he => absurd rfl (hon hb' he)⟩
      next? := hnext
      plugged? := fun {x b'} hx hb' he name => by
        obtain ⟨c', hc', rfl | ⟨rfl, -⟩⟩ := h.exists_block hw hu hx.2 hb'
        · have hsame : u.child? x (some name) = w.child? x (some name) := by
            rw [child?, child?, hb', hc']
          rw [plugged?, plugged?, hsame]
          cases hy : w.child? x (some name) with
          | none => rfl
          | some y =>
              have hby := hchild hx hy fun hxd => absurd hxd (hon hb' he)
              rw [Option.filter_some, Option.filter_some, henabled hby]
        · exact absurd rfl (hon hb' he)
      follows := fun hx hy => hchild hx hy fun _ => rfl
      reaches := fun hx hb' he hy => by
        obtain ⟨hy, -⟩ := Option.filter_eq_some_iff.mp hy
        exact hchild hx hy fun hxd => absurd hxd (hon hb' he) }

/-- The blocks at the top are the same, in the order of their creation. -/
theorem forall₂_tops : List.Forall₂ (fun b c => w.Shared (w.Beside d) u b c ∧ c.position = b.position)
    (w.blocks.filter (·.isTop)) (u.blocks.filter (·.isTop)) := by
  rw [hw.tops_besides d, hu.tops_besides d, List.forall₂_map_left_iff, List.forall₂_map_right_iff]
  refine (List.rel_filter (p := fun e => e.2.isTop) (q := fun f => f.2.isTop) ?_
    (h.forall₂ hw hu)).imp ?_
  · rintro e f ⟨x, -, -, -, -, hf | ⟨-, fields, inputs, hf⟩⟩
    all_goals
      dsimp only
      rw [hf]
    rfl
  · rintro e f ⟨x, -, hb, hc, hx, hf⟩
    refine ⟨⟨x, hx, hb, hc⟩, ?_⟩
    rcases hf with hf | ⟨-, fields, inputs, hf⟩
    · rw [hf]
    · rw [hf]

end Varies

/-! ### A block that is let go -/

/-- Letting go of a block that is turned off changes nothing of what is plugged in elsewhere and
turned on, and no chain. -/
theorem Sound.echoes_cut (h : w.Sound) {p name : String} (hseat : w.seat? d = some (p, some name))
    (hb : w.block? d = some b) (hoff : b.isEnabled = false) :
    w.Echoes (fun x => (w.block? x).isSome) (w.cut d) where
  vocabulary := (sameCore_cut w d).vocabulary
  block? {x} _ := by
    rw [h.block?_cut]
    cases w.block? x with
    | none => exact .none
    | some c =>
        rw [Option.map_some]
        refine .some ?_
        split
        · exact ⟨rfl, fun _ => ⟨rfl, rfl⟩⟩
        · exact ⟨rfl, fun _ => ⟨rfl, rfl⟩⟩
  next? {x} _ := by
    rw [next?, next?, child?_cut h.linked, if_neg]
    intro hx
    rw [(h.linked x none d).mp hx] at hseat
    cases hseat
  plugged? {x c} _ _ _ name := by
    have henabled (y : String) : ((w.cut d).block? y).any (·.isEnabled) =
        (w.block? y).any (·.isEnabled) := by
      rw [h.block?_cut]
      cases w.block? y with
      | none => rfl
      | some c =>
          rw [Option.map_some, Option.any_some, Option.any_some]
          split
          · rfl
          · rfl
    rw [plugged?, plugged?, child?_cut h.linked]
    simp only [henabled]
    split
    · rename_i hd
      rw [hd, Option.filter_some, hb, Option.any_some, hoff]
      rfl
    · rfl
  follows _ hy := h.isSome_child hy
  reaches _ _ _ hy := h.isSome_child (Option.filter_eq_some_iff.mp hy).1

/-- The blocks at the top are the same besides, in the order of their creation. -/
theorem Sound.forall₂_tops_cut (h : w.Sound) {q : String × Slot} (hseat : w.seat? d = some q) :
    List.Forall₂ (fun b c =>
      w.Shared (fun x => (w.block? x).isSome) (w.cut d) b c ∧ c.position = b.position)
    (w.blocks.filter (·.isTop))
    (((w.cut d).blocks.filter (·.isTop)).filter fun c => c.id ≠ .text d) := by
  have hkeys : List.Forall₂ (fun e f : Key × Block => f.1 = e.1) w.entries (w.cut d).entries := by
    have hsame : List.Forall₂ Eq ((w.cut d).entries.map (·.1)) (w.entries.map (·.1)) := by
      rw [keys_cut]
      exact List.forall₂_refl _
    rw [List.forall₂_map_left_iff, List.forall₂_map_right_iff] at hsame
    exact hsame.flip
  have hblocks : List.Forall₂ (fun e f => ∃ x, w.block? x = some e.2 ∧
      (w.cut d).block? x = some f.2) w.entries (w.cut d).entries := by
    refine (forall₂_with_mem hkeys).imp fun e f hef => ?_
    obtain ⟨he, hf, hkey⟩ := hef
    obtain ⟨x, hx, hb⟩ := h.key_text (find?_of_mem_entries he)
    refine ⟨x, hb, mem_entries.mp ?_⟩
    rw [← hx, ← hkey]
    exact hf
  rw [List.filter_filter, blocks, blocks, List.filter_map, List.filter_map,
    List.forall₂_map_left_iff, List.forall₂_map_right_iff]
  refine (List.rel_filter ?_ hblocks).imp ?_
  · rintro e f ⟨x, hb, hc⟩
    have hid := (h.cut d).id_eq hc
    have htop := (h.isTop_iff hb)
    have htop' := ((h.cut d).isTop_iff hc)
    rw [above?_cut] at htop'
    have hd : w.above? d ≠ none := by
      rw [above?_eq_some.mpr ⟨_, hseat⟩]
      exact Option.some_ne_none _
    by_cases hx : d = x
    · subst hx
      simp [htop, hid, hd]
    · rw [if_neg hx] at htop'
      simp [htop, htop', hid, Ne.symm hx]
  · rintro e f ⟨x, hb, hc⟩
    refine ⟨⟨x, Option.isSome_iff_exists.mpr ⟨_, hb⟩, hb, hc⟩, ?_⟩
    rw [h.block?_cut, hb, Option.map_some, Option.some.injEq] at hc
    rw [← hc]
    split
    · rfl
    · rfl

/-- A block that is turned off contributes nothing where nothing follows it. -/
theorem Sound.chain_off (h : w.Sound) (hb : w.block? x = some b) (hoff : b.isEnabled = false)
    (hnext : w.next? x = none) (t : Compiler) : Compile.chain t w b = pure [] := by
  obtain ⟨m, es, hm, hes, hall⟩ := h.exists_chain (x := x) (by rw [hb]; rfl)
  obtain rfl := hm.unique (.root hnext)
  obtain ⟨e, rest, ⟨-, he⟩, hrest, rfl⟩ := List.forall₂_cons_left_iff.mp hall
  obtain rfl := List.forall₂_nil_left_iff.mp hrest
  obtain rfl := Option.some.inj (hb.symm.trans he)
  have hwalk : (do w.chain (← e.2.id.toKey)) = .ok [e] := by rw [h.id_eq hb]; exact hes
  unfold Compile.chain
  rw [hwalk]
  simp only [Compile.ofExcept, pure_bind, List.map_cons, List.map_nil]
  rw [List.filter_cons_of_neg (by rw [hoff]; exact Bool.false_ne_true)]
  rfl

/-- Positions of blocks at the top are numbers. -/
theorem Stocked.exists_position (hs : w.Stocked) (k : Key) (b : Block) (hb : w.find? k = some b)
    (_ : b.isTop = true) : ∃ x y, b.position = [.float x, .float y] := by
  obtain ⟨x, rfl, hb⟩ := hs.sound.key_text hb
  obtain ⟨d, hd⟩ := hs.stems x b hb
  exact hd.placed

end Workspace

/-! ### Programs -/

open Workspace

section

variable {w u : Workspace} {d : String} {b : Block}

/-- What is made of blocks that are turned on depends on their types and fields. -/
theorem Compiler.respects_echoed {S : String → Prop} (h : w.Echoes S u) (words : List String) :
    (stock.reserve words).Respects (w.Echoed S u) :=
  respects_stock words fun _ _ hbc => ((h.echoes hbc.1).2 hbc.2).2

/-- The fields of a block that is turned off, and what hangs from its sockets, are not seen. -/
theorem Workspace.Stocked.program_varied (hw : w.Stocked) (hu : u.Stocked) (words : List String)
    (hb : w.block? d = some b) (hoff : b.isEnabled = false) (h : w.Varies d u) :
    (Compiler.stock.reserve words).program u = (Compiler.stock.reserve words).program w := by
  have hechoes := h.echoes hw.sound hu.sound (hu.vocabulary.trans hw.vocabulary.symm) hb hoff
  obtain ⟨bs, cs, hbs, hcs, hall⟩ := hw.sound.filed.exists_matching_tops hu.sound.filed
    hw.exists_position hu.exists_position (p := fun _ => true)
    (by rw [List.filter_true]; exact h.forall₂_tops hw.sound hu.sound) (.inl fun _ => rfl)
  exact hechoes.program_eq hw.sound hu.sound (Compiler.respects_echoed hechoes words) hbs hcs hall
    fun _ _ hc => nomatch hc

/-- Whether no coordinate of a block, and none of a block at the top, is no number. -/
def Workspace.Levelled (w : Workspace) (d : String) : Prop :=
  ∀ x b, w.block? x = some b → x = d ∨ b.isTop = true → ∀ v ∈ b.position, v.isNaN = false

/-- What a block that is turned off is plugged into is not seen, either. -/
theorem Workspace.Stocked.program_cut (hw : w.Stocked) (words : List String)
    (hb : w.block? d = some b) (hoff : b.isEnabled = false) {p name : String}
    (hseat : w.seat? d = some (p, some name)) (hn : w.Levelled d) :
    (Compiler.stock.reserve words).program (w.cut d) = (Compiler.stock.reserve words).program w := by
  have h := hw.sound
  have hu : (w.cut d).Stocked := ⟨h.cut d, (sameCore_cut w d).vocabulary.trans hw.vocabulary,
    (sameCore_cut w d).holds Vocabulary.worded_stock.persistent hw.stems⟩
  have hechoes := h.echoes_cut hseat hb hoff
  have hnumbers : ∀ c ∈ (w.cut d).blocks, c.isTop = true → ∀ v ∈ c.position, v.isNaN = false := by
    intro c hc htop
    obtain ⟨k, hk⟩ := exists_find?_of_mem hc
    obtain ⟨x, rfl, hc⟩ := hu.sound.key_text hk
    have hroot := (hu.sound.isTop_iff hc).mp htop
    rw [above?_cut] at hroot
    rw [h.block?_cut] at hc
    obtain ⟨b', hb', rfl⟩ := Option.map_eq_some_iff.mp hc
    have hposition : (if x = d then (b'.lose d).loosen else b'.lose d).position = b'.position := by
      split
      · rfl
      · rfl
    rw [hposition]
    refine hn x b' hb' ?_
    by_cases hx : d = x
    · exact .inl hx.symm
    · rw [if_neg hx] at hroot
      exact .inr ((h.isTop_iff hb').mpr hroot)
  obtain ⟨bs, cs, hbs, hcs, hall⟩ := h.filed.exists_matching_tops hu.sound.filed
    hw.exists_position hu.exists_position (h.forall₂_tops_cut hseat) (.inr hnumbers)
  refine hechoes.program_eq h hu.sound (Compiler.respects_echoed hechoes words) hbs hcs hall
    fun c hc hid => ?_
  -- the block that is let go is the only one that is left out
  obtain ⟨tops, htops, hmem⟩ := hu.exists_tops
  obtain rfl := Except.ok.inj (hcs.symm.trans htops)
  obtain ⟨x, hx⟩ := hmem c hc
  have hid : c.id = .text d := by simpa using hid
  obtain rfl : d = x := Value.text.inj (hid.symm.trans (hu.sound.id_eq hx))
  have hoff' : c.isEnabled = false := by
    rw [h.block?_cut, hb, Option.map_some, if_pos rfl, Option.some.injEq] at hx
    rw [← hx]
    exact hoff
  refine hu.sound.chain_off hx hoff' ?_ _
  rw [hechoes.next? (Option.isSome_iff_exists.mpr ⟨b, hb⟩), Option.eq_none_iff_forall_ne_some]
  exact fun y hy => hw.not_plugged_of_next hy p name ((h.linked p (some name) d).mpr hseat)

end

/-! ### Which blocks a program shows -/

namespace Compile

variable {t : Compiler} {w : Workspace} {d : Draft}

theorem ends_fragment (b : Block) :
    Ends (fragment t w b) d (fun f _ => f.block = b.id) fun _ _ => True := by
  unfold fragment
  refine Ends.after (fun _ _ => trivial) fun o _ => ?_
  cases o with
  | value e order => exact Ends.pure rfl
  | ops ops => exact Ends.pure rfl

theorem ends_fragments (bs : List Block) : Ends (bs.mapM (fragment t w)) d
    (fun fs _ => fs.map (·.block) = bs.map (·.id)) fun _ _ => True := by
  induction bs generalizing d with
  | nil => exact Ends.pure rfl
  | cons b bs ih =>
      rw [List.mapM_cons]
      refine Ends.bind ((ends_fragment b).mono (fun f _ hf => ?_) fun _ _ he => he)
      refine Ends.bind (ih.mono (fun fs _ hfs => Ends.pure ?_) fun _ _ he => he)
      rw [List.map_cons, List.map_cons, hf, hfs]

/-- The ids of the blocks in chains that are turned on. -/
def shown (rows : List (List (Key × Block))) : List Value :=
  ((rows.flatten.map (·.2)).filter (·.isEnabled)).map (·.id)

theorem ends_rows {tops : List Block} {rows : List (List (Key × Block))}
    (h : List.Forall₂ (fun top row => (do w.chain (← top.id.toKey)) = .ok row) tops rows) :
    Ends (tops.mapM (chain t w)) d (fun fss _ => fss.flatten.map (·.block) = shown rows)
      fun _ _ => True := by
  induction h generalizing d with
  | nil => exact Ends.pure rfl
  | @cons top row tops rows hrow _ ih =>
      rw [List.mapM_cons]
      unfold chain
      rw [hrow]
      refine Ends.bind ((ends_fragments _).mono (fun fs _ hfs => ?_) fun _ _ he => he)
      refine Ends.bind (ih.mono (fun fss _ hfss => Ends.pure ?_) fun _ _ he => he)
      simp only [List.flatten_cons, List.map_append, hfs, hfss, shown, List.filter_append]

/-- **A program shows the blocks that are turned on**, chain by chain. -/
theorem map_block_fragments {tops : List Block} {rows : List (List (Key × Block))} {p : Program}
    (htops : w.tops = .ok tops)
    (h : List.Forall₂ (fun top row => (do w.chain (← top.id.toKey)) = .ok row) tops rows)
    (hp : t.program w = .ok p) : p.fragments.map (·.block) = shown rows := by
  have hchains : Ends (chains t w) { used := t.reserved }
      (fun fss _ => fss.flatten.map (·.block) = shown rows) fun _ _ => True := by
    unfold chains
    rw [htops]
    refine Ends.bind (Ends.pure (Ends.bind ((ends_rows h).mono (fun fss _ hfss => Ends.pure ?_)
      fun _ _ he => he)))
    rw [List.flatten_filter_not_isEmpty]
    exact hfss
  obtain ⟨fss, d, hrun, rfl⟩ := exists_chains_of_program hp
  exact (Ends.of_ok hrun).mp hchains

end Compile

/-! ### A position that cannot be compared -/

/-- A single run is what comes of sorting. -/
theorem Sorting.sort_of_run {α : Type} {before : α → α → Option Bool} {xs ys : List α} (hne : xs ≠ [])
    (h : nextRun before (leastRun 0 xs.length) xs = some (ys, [])) : sort before xs = some ys := by
  obtain ⟨x, xs, rfl⟩ := List.exists_cons_of_ne_nil hne
  unfold sort
  rw [pileUp_cons, h]
  simp only [makeReady, Bind.bind, Option.bind]
  unfold pileUp
  simp [collapse]

namespace Shelved

/-- A text that is turned off and plugged into another block, between that one and one that waits
further up. -/
def shelf (y : Binary64) : List (Key × Block) :=
  [(.text "a", { holder with inputs := [(.text "TEXT", .text "d")] }),
    (.text "d", { textAt y with
      parent := .text "a", parentInput := .text "TEXT", enabled := .bool false }),
    (.text "b", Severing.waiter "b")]

/-- The blocks when the text is let go. -/
def released (y : Binary64) : List (Key × Block) :=
  [(.text "a", holder), (.text "d", { textAt y with enabled := .bool false }),
    (.text "b", Severing.waiter "b")]

variable {w : Workspace}

theorem exists_shelved (y : Binary64) :
    ∃ w, History .journal .stock w ∧ w.Listed .stock 0 (shelf y) := by
  obtain ⟨w, hw, h⟩ := exists_laden y
  obtain ⟨w, hw, h⟩ := hw.exists_waiting h (x := "b") (by decide) (by decide) rfl (.zero false)
  have hoff : (Value.bool true).same (.bool false) = false := rfl
  have hswitched := Edit.stateAfter_setEnabled (h.find?_eq (.text "d")) hoff
  obtain ⟨u, hu, rfl⟩ := hw.exists_command (.setEnabled (.text "d") (.bool false)) (P := (· = _))
    (Ends.of_stateAfter hswitched)
  exact ⟨_, hu, h.edit (x := "d") rfl fun b => { b with enabled := .bool false }⟩

variable {y : Binary64}

theorem seat?_shelved (h : w.Listed .stock 0 (shelf y)) : w.seat? "d" = some ("a", some "TEXT") := by
  rw [Workspace.seat?, Workspace.block?, h.find?_eq]
  rfl

theorem nests_shelved (h : w.Listed .stock 0 (shelf y)) (n : Nat) (x : String) :
    w.Nests (n + 2) x := by
  -- only the holder has anything plugged into it, and that has nothing
  have hchild {x c s : String} (hc : w.child? x (some s) = some c) : c = "d" := by
    obtain ⟨b, hb, hc⟩ := Workspace.child?_eq_some.mp hc
    obtain ⟨j, hmem, -⟩ := h.exists_mem hb
    simp only [shelf, List.mem_cons, Prod.mk.injEq, List.not_mem_nil, or_false] at hmem
    obtain ⟨-, rfl⟩ | ⟨-, rfl⟩ | ⟨-, rfl⟩ := hmem
    · by_cases hs : s = "TEXT"
      · rw [hs] at hc
        exact (Option.some.inj hc).symm
      · simp [Block.child?, Entries.get?, Ne.symm hs] at hc
    · cases hc
    · cases hc
  intro s c hc t c' hc'
  obtain rfl := hchild hc
  obtain ⟨b, hb, hc'⟩ := Workspace.child?_eq_some.mp hc'
  obtain rfl := Option.some.inj ((h.find?_eq (.text "d")).symm.trans hb)
  cases hc'

/-- Cutting the text off lets it go. -/
theorem listed_cut (h : w.Listed .stock 0 (shelf y)) : (w.cut "d").Listed .stock 0 (released y) := by
  have hcut : w.cut "d" = (w.edit "a" (·.vacate (some "TEXT"))).edit "d" (·.loosen) := by
    rw [Workspace.cut, seat?_shelved h]
  rw [hcut]
  exact (h.edit (x := "a") rfl (·.vacate (some "TEXT"))).edit (x := "d") rfl (·.loosen)

/-- Where a position cannot be compared, the text stands between the two others, and these change
places. -/
theorem tops_shelved (h : w.Listed .stock 0 (shelf .notANumber)) :
    w.tops = .ok [Severing.waiter "b", { holder with inputs := [(.text "TEXT", .text "d")] }] := by
  have hspots : w.spots = .ok
      [⟨{ holder with inputs := [(.text "TEXT", .text "d")] }, .float .one, .float (.zero false), 0⟩,
        ⟨Severing.waiter "b", .float (.zero false), .float (.zero false), 2⟩] := by
    rw [Workspace.spots, h.entries]
    rfl
  have hleast : Sorting.leastRun 0 2 = 2 := by rw [Sorting.leastRun]; rfl
  refine Workspace.tops_of_sort hspots (Sorting.sort_of_run (List.cons_ne_nil _ _) ?_ :
    _ = some [⟨Severing.waiter "b", .float (.zero false), .float (.zero false), 2⟩,
      ⟨{ holder with inputs := [(.text "TEXT", .text "d")] }, .float .one, .float (.zero false), 0⟩])
  rw [List.length_cons, List.length_singleton, hleast]
  rfl

theorem tops_released (h : w.Listed .stock 0 (released .notANumber)) : w.tops =
    .ok [holder, { textAt .notANumber with enabled := .bool false }, Severing.waiter "b"] := by
  have hspots : w.spots = .ok [⟨holder, .float .one, .float (.zero false), 0⟩,
      ⟨{ textAt .notANumber with enabled := .bool false }, .float .notANumber, .float (.zero false), 1⟩,
      ⟨Severing.waiter "b", .float (.zero false), .float (.zero false), 2⟩] := by
    rw [Workspace.spots, h.entries]
    rfl
  have hleast : Sorting.leastRun 0 3 = 3 := by rw [Sorting.leastRun]; rfl
  refine Workspace.tops_of_sort hspots (Sorting.sort_of_run (List.cons_ne_nil _ _) ?_ :
    _ = some [⟨holder, .float .one, .float (.zero false), 0⟩,
      ⟨{ textAt .notANumber with enabled := .bool false }, .float .notANumber, .float (.zero false), 1⟩,
      ⟨Severing.waiter "b", .float (.zero false), .float (.zero false), 2⟩])
  rw [List.length_cons, List.length_cons, List.length_singleton, hleast]
  rfl

/-- A block that nothing follows is its chain. -/
theorem chain_single {muted : Nat} {es : List (Key × Block)} (h : w.Listed .stock muted es)
    (hes : es ≠ []) {x : String} {b : Block} (hb : Entries.get? es (.text x) = some b)
    (hid : b.id = .text x) (hnext : b.next = .null) :
    (do w.chain (← b.id.toKey)) = .ok [(.text x, b)] := by
  obtain ⟨e, es, rfl⟩ := List.exists_cons_of_ne_nil hes
  rw [hid]
  change w.chain (.text x) = _
  rw [Workspace.chain, h.size_eq, List.length_cons, Workspace.chainFrom, h.find?_eq, hb]
  simp only [hnext]
  rfl

end Shelved

/-- What is beside the only block. -/
theorem Workspace.Sound.besides_lone {w : Workspace} {x : String} {b : Block} (h : w.Sound)
    (hl : w.Lone x b) : w.besides x = [(.text x, b)] := by
  have hmem := (mem_besides hl.block?_self).mpr (h.not_under_self x)
  rw [besides, hl.entries] at hmem ⊢
  rw [List.filter_eq_self]
  intro e he
  rw [List.mem_singleton.mp he]
  exact (List.mem_filter.mp hmem).2

/-! ### Histories -/

/-- **Parts that are turned off are inert.**  Two workspaces have one program if they differ in no
more than the fields of a block that is turned off, and in what hangs from its sockets.  When the
block is let go by the one that it is plugged into, the program stays what it is, as long as no
coordinate of the block, and none of a block at the top, is no number. -/
theorem History.disabled_inert {σ τ : Type} {a : Audience σ} {a' : Audience τ} (ha : a.Tame)
    (ha' : a'.Tame) {w : Workspace} (h : History a .stock w) (words : List String) {d : String} {b : Block}
    (hb : w.block? d = some b) (hoff : b.isEnabled = false) :
    (∀ u, History a' .stock u → w.Varies d u →
      (Compiler.stock.reserve words).program u = (Compiler.stock.reserve words).program w) ∧
    ∀ p name, w.seat? d = some (p, some name) → w.Levelled d →
      ∃ ns w', Edit.disconnect (.text d) w = .ok ns w' ∧
        (Compiler.stock.reserve words).program w' = (Compiler.stock.reserve words).program w := by
  have hw := h.stocked ha
  refine ⟨fun u hu hvaries => hw.program_varied (hu.stocked ha') words hb hoff hvaries,
    fun p name hseat hn => ?_⟩
  have hends : Ends (Edit.disconnect (.text d)) w (fun _ w' => w' = w.cut d) fun _ _ => False :=
    Edit.ends_disconnect hw.sound (fun _ hnone => nomatch hnone.symm.trans hb) fun x _ hx => by
      rw [Key.text.inj hx]
  obtain ⟨ns, w', hrun, rfl⟩ := hends.exists_ok
  exact ⟨ns, _, hrun, hw.program_cut words hb hoff hseat hn⟩

open Shelved in
/-- A text that is turned off may hold another text, and may be let go. -/
theorem History.disabled_inert_text : (∃ w u : Workspace, History .journal .stock w ∧
    History .journal .stock u ∧ w.blocks ≠ u.blocks ∧
      (Compiler.stock.reserve []).program u = (Compiler.stock.reserve []).program w) ∧
    ∃ (w w' : Workspace) (ns : List Notice), History .journal .stock w ∧
      w.seat? "d" = some ("a", some "TEXT") ∧ Edit.disconnect (.text "d") w = .ok ns w' ∧
        (Compiler.stock.reserve []).program w' = (Compiler.stock.reserve []).program w := by
  constructor
  · have hoff : (Value.bool true).same (.bool false) = false := rfl
    have hdeclared : (do (Workspace.new .stock 0).vocabulary.get (← (Value.text "text").toKey)) =
        .ok Vocabulary.text := rfl
    have hfilled : Edit.filled (.text "text") Vocabulary.text [] =
        .ok [(.text "TEXT", .text "")] := rfl
    have hfilled' : Edit.filled (.text "text") Vocabulary.text [(.text "TEXT", .text "unseen")] =
        .ok [(.text "TEXT", .text "unseen")] := rfl
    have hd : "d" ≠ "" ∧ "d".length < 5 := by decide
    obtain ⟨w, hw, -, hlone⟩ :=
      exists_lone_switched (.zero false) (.zero false) hd.1 hd.2 hdeclared hfilled hoff
    obtain ⟨u, hu, -, hlone'⟩ :=
      exists_lone_switched (.zero false) (.zero false) hd.1 hd.2 hdeclared hfilled' hoff
    have ht := Audience.tame_journal
    refine ⟨w, u, hw, hu, ?_, (disabled_inert ht ht hw [] hlone.block?_self rfl).1 u hu ?_⟩
    · rw [blocks, blocks, hlone.entries, hlone'.entries]
      intro hsame
      have hfields := congrArg (List.map (·.fields)) hsame
      exact absurd hfields (by decide)
    · rw [Varies, (hw.stocked ht).sound.besides_lone hlone, (hu.stocked ht).sound.besides_lone hlone']
      exact .cons ⟨rfl, .inr ⟨rfl, _, _, rfl⟩⟩ .nil
  · obtain ⟨w, hw, h⟩ := exists_shelved (.zero false)
    have ht := Audience.tame_journal
    obtain ⟨ns, w', hrun, hsame⟩ := (disabled_inert ht ht hw [] (h.find?_eq (.text "d")) rfl).2
      "a" "TEXT" (seat?_shelved h) fun x b hb _ v hv => by
        have hmem := mem_entries.mpr hb
        rw [h.entries] at hmem
        simp only [shelf, List.mem_cons, List.not_mem_nil, or_false, Prod.mk.injEq] at hmem
        obtain ⟨-, rfl⟩ | ⟨-, rfl⟩ | ⟨-, rfl⟩ := hmem
        all_goals
          obtain rfl | rfl := List.mem_pair.mp hv
          all_goals rfl
    exact ⟨w, w', ns, hw, seat?_shelved h, hrun, hsame⟩

open Shelved in
/-- **Letting go of a block that is turned off can change the program**, where its position cannot be
compared: two blocks then come in another order. -/
theorem History.disabled_not_always_inert : ∃ (w w' : Workspace) (b : Block) (ns : List Notice),
    History .journal .stock w ∧ w.block? "d" = some b ∧ b.isEnabled = false ∧
      w.seat? "d" = some ("a", some "TEXT") ∧ Edit.disconnect (.text "d") w = .ok ns w' ∧
      (Compiler.stock.reserve []).program w' ≠ (Compiler.stock.reserve []).program w := by
  obtain ⟨w, hw, h⟩ := exists_shelved .notANumber
  have hends : Ends (Edit.disconnect (.text "d")) w (fun _ w' => w' = w.cut "d") fun _ _ => False :=
    Edit.ends_disconnect (hw.stocked Audience.tame_journal).sound
      (fun _ hnone => nomatch hnone.symm.trans (h.find?_eq _)) fun x _ hx => by rw [Key.text.inj hx]
  obtain ⟨ns, w', hrun, rfl⟩ := hends.exists_ok
  refine ⟨w, _, _, ns, hw, h.find?_eq _, rfl, seat?_shelved h, hrun, fun hsame => ?_⟩
  have h' := listed_cut h
  obtain ⟨p, hp⟩ : ∃ p, (Compiler.stock.reserve []).program w = .ok p :=
    (hw.stocked Audience.tame_journal).isOk_program rfl fun x _ => nests_shelved h _ x
  have hrows : List.Forall₂ (fun (top : Block) row => (do w.chain (← top.id.toKey)) = .ok row) _
      [_, _] :=
    .cons (chain_single h (List.cons_ne_nil _ _) (x := "b") rfl rfl rfl)
      (.cons (chain_single h (List.cons_ne_nil _ _) (x := "a") rfl rfl rfl) .nil)
  have hrows' : List.Forall₂
      (fun (top : Block) row => (do (w.cut "d").chain (← top.id.toKey)) = .ok row) _ [_, _, _] :=
    .cons (chain_single h' (List.cons_ne_nil _ _) (x := "a") rfl rfl rfl)
      (.cons (chain_single h' (List.cons_ne_nil _ _) (x := "d") rfl rfl rfl)
        (.cons (chain_single h' (List.cons_ne_nil _ _) (x := "b") rfl rfl rfl) .nil))
  have hshown := Compile.map_block_fragments (tops_shelved h) hrows hp
  rw [Compile.map_block_fragments (tops_released h') hrows' (hsame.trans hp)] at hshown
  exact absurd hshown (by decide)

end Blockwork
