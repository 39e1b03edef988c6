import Blockwork.Proofs.Growing
import Blockwork.Proofs.Likeness

/-!
# Mirrored workspaces

A finished copy of a workspace mirrors it: under every key stands the same block, with the same
links (`Workspace.Copies.mirrors`).  The blocks at the top come in the same order, those in one
place too, since the copy was made in that order (`Workspace.Copies.exists_tops`); so both
workspaces have one document (`Workspace.Mirrors.document`).
-/

namespace Blockwork

open Forest (Hangs Lineage)

/-! ### Lists that correspond -/

/-- What holds of each two items of a list holds of the items that correspond to them. -/
theorem pairwise_of_forall₂ {α β : Type} {R : α → β → Prop} {P : β → β → Prop} {Q : α → α → Prop}
    {as : List α} {bs : List β} (h : List.Forall₂ R as bs) (hb : bs.Pairwise P)
    (hq : ∀ a a' b b', R a b → R a' b' → P b b' → Q a a') : as.Pairwise Q := by
  induction h with
  | nil => exact .nil
  | @cons a b as bs hr hs ih =>
      obtain ⟨hhead, htail⟩ := List.pairwise_cons.mp hb
      refine List.pairwise_cons.mpr ⟨fun a' ha' => ?_, ih htail⟩
      obtain ⟨b', hb', hr'⟩ := exists_of_mem_forall₂ hs.flip ha'
      exact hq a a' b b' hr hr' (hhead b' hb')

/-! ### Blocks -/

/-- Whether a block is another one over again.  Colours do not count, nor does the order in which
its sockets were filled; the switch is on or off, whatever stood for that before. -/
structure Block.Mirrors (c b : Block) : Prop where
  id : c.id = b.id
  type : c.type = b.type
  fields : c.fields = b.fields
  inputs : ∀ s, Entries.get? c.inputs s = Entries.get? b.inputs s
  next : c.next = b.next
  parent : c.parent = b.parent
  parentInput : c.parentInput = b.parentInput
  enabled : c.enabled = .bool b.isEnabled

/-- Nothing is found under what is no text. -/
theorem Block.Shaped.get?_inputs_none {b : Block} (h : b.Shaped) {k : Key}
    (hk : ∀ s, k ≠ .text s) : Entries.get? b.inputs k = none := by
  rw [Entries.get?, Option.map_eq_none_iff, List.find?_eq_none]
  intro e he heq
  obtain ⟨s, x, rfl⟩ := h.inputs e he
  exact hk s (Key.text_beq_iff.mp heq)

/-- Links are the same where all slots and the seat are. -/
theorem Block.Copies.mirrors {c b : Block} (h : c.Copies b) (hc : c.Shaped) (hb : b.Shaped)
    (hid : c.id = b.id) (hchild : ∀ s, c.child? s = b.child? s) (hseat : c.seat? = b.seat?) :
    c.Mirrors b where
  id := hid
  type := h.type
  fields := h.fields
  enabled := h.enabled
  next := by rw [hc.next_eq, hb.next_eq, hchild]
  inputs k := by
    by_cases hk : ∃ s, k = .text s
    · obtain ⟨s, rfl⟩ := hk
      rw [hc.get?_inputs, hb.get?_inputs, hchild]
    · have hk' : ∀ s, k ≠ .text s := fun s hs => hk ⟨s, hs⟩
      rw [hc.get?_inputs_none hk', hb.get?_inputs_none hk']
  parent := by rw [hc.parent_eq, hb.parent_eq, hseat]
  parentInput := by rw [hc.parentInput_eq, hb.parentInput_eq, hseat]

theorem Block.Mirrors.isEnabled {c b : Block} (h : c.Mirrors b) : c.isEnabled = b.isEnabled := by
  rw [Block.isEnabled, h.enabled]
  cases b.isEnabled <;> rfl

theorem Block.Mirrors.like {c b : Block} (h : c.Mirrors b) : b.Like c :=
  ⟨h.id, h.type, h.fields, h.isEnabled, h.next, h.inputs⟩

namespace Workspace

/-! ### Documents -/

/-- Whether a workspace has the blocks of another one, each under its key. -/
structure Mirrors (w g : Workspace) : Prop where
  vocabulary : w.vocabulary = g.vocabulary
  blocks : ∀ k, Option.Rel Block.Mirrors (w.find? k) (g.find? k)

namespace Mirrors

variable {w g : Workspace} {b : Block}

theorem exists_block {x : String} (h : w.Mirrors g) (hb : g.block? x = some b) :
    ∃ c, w.block? x = some c ∧ c.Mirrors b := by
  have hrel : Option.Rel Block.Mirrors (w.block? x) (g.block? x) := h.blocks (.text x)
  rw [hb] at hrel
  generalize w.block? x = c at hrel
  cases hrel with
  | some hc => exact ⟨_, rfl, hc⟩

theorem likeBy (h : w.Mirrors g) : g.LikeBy (fun b c => c.Mirrors b) w where
  like := Block.Mirrors.like
  vocabulary := h.vocabulary
  find? k := by
    have hrel := h.blocks k
    generalize w.find? k = c at hrel
    generalize g.find? k = b at hrel
    cases hrel with
    | none => exact .none
    | some hc => exact .some hc

/-- **Workspaces that mirror each other have one document**, if their blocks at the top come in one
order. -/
theorem document (h : w.Mirrors g) {us ts : List Block} (hus : w.tops = .ok us)
    (hts : g.tops = .ok ts)
    (hall : List.Forall₂ (fun c b => c.Mirrors b ∧ c.position = b.position ∧
      ∃ x, w.block? x = some c ∧ g.block? x = some b) us ts) :
    Snapshot.ofWorkspace w = Snapshot.ofWorkspace g := by
  refine h.likeBy.document_eq ?_
  rw [hus, hts]
  exact .ok (hall.flip.imp fun b c hc => ⟨hc.1, hc.2.1⟩)

end Mirrors

/-! ### The order of the blocks at the top -/

/-- No two blocks come before each other. -/
theorem Precedes.asymm {w : Workspace} (hs : w.Sound) {a b : Block}
    (ha : ∀ x ∈ a.position, x.isNaN = false) (hb : ∀ x ∈ b.position, x.isNaN = false)
    (hab : w.Precedes a b) : ¬ w.Precedes b a := by
  rintro ⟨j', i', u', v', u, v, hj', hi', hpb', hpa', hba⟩
  obtain ⟨i, j, x, y, x', y', hi, hj, hpa, hpb, hab⟩ := hab
  -- a block has one place among all blocks, so both sides speak of the same places and positions
  have hnd : w.blocks.Nodup := List.Nodup.of_map _ hs.nodup_ids
  obtain rfl : i = i' := (List.getElem?_inj (List.getElem?_eq_some_iff.mp hi).1 hnd).mp
    (hi.trans hi'.symm)
  obtain rfl : j = j' := (List.getElem?_inj (List.getElem?_eq_some_iff.mp hj).1 hnd).mp
    (hj.trans hj'.symm)
  obtain ⟨rfl, rfl⟩ : u = x ∧ v = y := by simpa using hpa'.symm.trans hpa
  obtain ⟨rfl, rfl⟩ : u' = x' ∧ v' = y' := by simpa using hpb'.symm.trans hpb
  rw [hpa] at ha
  rw [hpb] at hb
  have hx : u.isNaN = false := Value.isNaN_float u ▸ ha _ (by simp)
  have hy : v.isNaN = false := Value.isNaN_float v ▸ ha _ (by simp)
  have hx' : u'.isNaN = false := Value.isNaN_float u' ▸ hb _ (by simp)
  have hy' : v'.isNaN = false := Value.isNaN_float v' ▸ hb _ (by simp)
  rw [Binary64.lt_iff_level hy hy', Binary64.same_iff_level hy hy', Binary64.lt_iff_level hx hx',
    Binary64.same_iff_level hx hx'] at hab
  rw [Binary64.lt_iff_level hy' hy, Binary64.same_iff_level hy' hy, Binary64.lt_iff_level hx' hx,
    Binary64.same_iff_level hx' hx] at hba
  rcases hab with hab | ⟨he, hab | ⟨he', hij⟩⟩
  · rcases hba with hba | ⟨he, -⟩
    · exact lt_asymm hab hba
    · exact hab.ne' he
  · rcases hba with hba | ⟨-, hba | ⟨he', -⟩⟩
    · exact hba.ne' he
    · exact lt_asymm hab hba
    · exact hab.ne' he'
  · rcases hba with hba | ⟨-, hba | ⟨-, hji⟩⟩
    · exact hba.ne' he
    · exact hba.ne' he'
    · exact Nat.lt_asymm hij hji

/-- The blocks at the top are found in the one order in which they come before each other. -/
theorem Sound.tops_eq {w : Workspace} (h : w.Sound) (hp : w.Placed) {us : List Block}
    (hperm : us.Perm (w.blocks.filter (·.isTop)))
    (hn : ∀ c ∈ us, ∀ x ∈ c.position, x.isNaN = false) (hus : us.Pairwise w.Precedes) :
    w.tops = .ok us := by
  obtain ⟨tops, htops, hperm', hsorted⟩ := h.exists_tops hp
  have hboth : tops.Perm us := hperm'.trans hperm.symm
  have hn' : ∀ c ∈ tops, ∀ x ∈ c.position, x.isNaN = false := fun c hc => hn c (hboth.mem_iff.mp hc)
  -- two orders of the same blocks agree where no two blocks come before each other
  have heq : tops = us := by
    refine hboth.eq_of_pairwise (fun a b ha hb hab hba => ?_) (hsorted hn') hus
    exact absurd hba (hab.asymm h (hn' a ha) (hn b hb))
  rw [htops, heq]

namespace Copies

variable {g w : Workspace} {muted : Nat} {done : List String} {hung : String → Prop}

theorem placed (h : Copies g muted w done hung) : w.Placed := fun x c hx => by
  obtain ⟨b, -, hc⟩ := h.copied x c hx
  exact hc.placed

/-- The blocks of a copy are in the order in which they were copied. -/
theorem forall₂_blocks (h : Copies g muted w done hung) :
    List.Forall₂ (fun x c => w.block? x = some c) done w.blocks := by
  have hkeys : List.Forall₂ (fun e x => w.find? e.1 = some e.2 ∧ e.1 = Key.text x)
      w.entries done := by
    refine (List.forall₂_and_left _ _).mpr ⟨fun e he => find?_of_mem_entries he, ?_⟩
    have hk := h.keys
    rwa [← List.forall₂_eq_eq_eq, List.forall₂_map_left_iff, List.forall₂_map_right_iff] at hk
  refine (List.forall₂_map_left_iff.mpr (hkeys.imp fun e x he => ?_)).flip
  change w.find? (.text x) = some e.2
  rw [← he.2]
  exact he.1

/-! ### Finished copies -/

section

variable (h : Copies g muted w done hung) (hg : g.Sound)
  (hdone : ∀ x, (g.block? x).isSome → x ∈ done)
  (hhung : ∀ x q, g.seat? x = some q → hung x)

include h hhung

theorem seat?_eq (x : String) : w.seat? x = g.seat? x := Option.ext fun q => by
  rw [h.seats]
  exact and_iff_right_of_imp (hhung x q)

include hg

theorem child?_eq (p : String) (s : Slot) : w.child? p s = g.child? p s := Option.ext fun c => by
  rw [h.sound.linked, hg.linked, h.seat?_eq hhung]

theorem mirrors_block {x : String} {c b : Block} (hx : w.block? x = some c)
    (hb : g.block? x = some b) : c.Mirrors b := by
  obtain ⟨b', hb', hc⟩ := h.copied x c hx
  obtain rfl := Option.some.inj (hb.symm.trans hb')
  refine hc.mirrors (h.sound.shaped x c hx) (hg.shaped x b hb) ?_ (fun s => ?_) ?_
  · rw [h.sound.id_eq hx, hg.id_eq hb]
  · have hs := h.child?_eq hg hhung x s
    rw [Workspace.child?, Workspace.child?, hx, hb] at hs
    exact hs
  · have hs := h.seat?_eq hhung x
    rw [Workspace.seat?, Workspace.seat?, hx, hb] at hs
    exact hs

/-- The blocks at the top of a finished copy are those of the original in the same order, when they
were copied in that order. -/
theorem exists_tops {xs : List String} {ts : List Block}
    (hxs : List.Forall₂ (fun x b => g.block? x = some b ∧ b.isTop = true) xs ts)
    (horder : done.filter (fun x => (g.above? x).isNone) = xs)
    (hn : ∀ b ∈ ts, ∀ x ∈ b.position, x.isNaN = false) (hts : ts.Pairwise g.Precedes) :
    ∃ us, w.tops = .ok us ∧ List.Forall₂ (fun c b => c.Mirrors b ∧ c.position = b.position ∧
      ∃ x, w.block? x = some c ∧ g.block? x = some b) us ts := by
  have htop (x : String) (c : Block) (hx : w.block? x = some c) :
      (g.above? x).isNone = true ↔ c.isTop = true := by
    rw [above?, ← h.seat?_eq hhung, ← above?, Option.isNone_iff_eq_none, h.sound.isTop_iff hx]
  let us := w.blocks.filter (·.isTop)
  have hus : List.Forall₂ (fun x c => w.block? x = some c) xs us :=
    horder ▸ List.rel_filter (fun x c hx => htop x c hx) h.forall₂_blocks
  have hall : List.Forall₂ (fun c b => c.Mirrors b ∧ c.position = b.position ∧
      ∃ x, w.block? x = some c ∧ g.block? x = some b) us ts := by
    refine (forall₂_of_common hus hxs).imp ?_
    rintro c b ⟨x, hx, hb, htop⟩
    obtain ⟨b', hb', hc⟩ := h.copied x c hx
    obtain rfl := Option.some.inj (hb.symm.trans hb')
    exact ⟨h.mirrors_block hg hhung hx hb, hc.place htop, x, hx, hb⟩
  have hn' : ∀ c ∈ us, ∀ x ∈ c.position, x.isNaN = false := fun c hc => by
    obtain ⟨b, hb, -, hp, -⟩ := exists_of_mem_forall₂ hall.flip hc
    rw [hp]
    exact hn b hb
  have hindex : w.blocks.Pairwise fun c c' =>
      ∃ i j : Nat, i < j ∧ w.blocks[i]? = some c ∧ w.blocks[j]? = some c' :=
    List.pairwise_iff_getElem.mpr fun i j hi hj hij =>
      ⟨i, j, hij, List.getElem?_eq_getElem hi, List.getElem?_eq_getElem hj⟩
  have hplaces := pairwise_of_forall₂ (Q := fun c c' => ∃ b b', c.position = b.position ∧
    c'.position = b'.position ∧ g.Precedes b b') hall hts
      fun c c' b b' hc hc' hb => ⟨b, b', hc.2.1, hc'.2.1, hb⟩
  refine ⟨us, h.sound.tops_eq h.placed (.refl _) hn' ?_, hall⟩
  refine ((hindex.sublist List.filter_sublist).and hplaces).imp ?_
  rintro c c' ⟨⟨i, j, hij, hi, hj⟩, b, b', hp, hp', _, _, x, y, x', y', -, -, hb, hb', hlt⟩
  exact ⟨i, j, x, y, x', y', hi, hj, hp.trans hb, hp'.trans hb',
    hlt.imp_right (.imp_right (.imp_right (.imp_right fun _ => hij)))⟩

include hdone

/-- **A finished copy mirrors the original.** -/
theorem mirrors : w.Mirrors g where
  vocabulary := h.vocabulary
  blocks k := by
    cases hk : w.find? k with
    | none =>
        cases hk' : g.find? k with
        | none => exact .none
        | some b =>
            obtain ⟨x, rfl, hx⟩ := hg.key_text hk'
            have := h.isSome_block?.mpr (hdone x (by rw [hx]; rfl))
            rw [block?, hk] at this
            cases this
    | some c =>
        obtain ⟨x, rfl, hx⟩ := h.sound.key_text hk
        obtain ⟨b, hb, -⟩ := h.copied x c hx
        have hrel := Option.Rel.some (h.mirrors_block hg hhung hx hb)
        rwa [← hb] at hrel

end

end Copies

end Workspace

end Blockwork
