import Blockwork.Proofs.Splicing

/-!
# What is removed with a block

When a block is deleted, all blocks below it are removed with it, or, where the chain is healed, those
below its sockets only: then the block that follows it keeps all that is below it, and takes the
place of the deleted one, in the chain or on the desk (`Workspace.Removed`).  Every other block that
is left is what it was, but for its link to the deleted one (`Block.bereft`).
-/

namespace Blockwork

open Forest (Rooted Hangs)

/-- The block that a block says it follows. -/
def Block.after? (b : Block) : Option String :=
  if b.parentInput = .null then b.parent.text? else none

/-- The block under a name, once the block `b` under the name `x` is deleted and the block that
followed it, if that one stays, has taken its place. -/
def Block.bereft (x : String) (b : Block) (follower : Option String) (y : String) (c : Block) :
    Block :=
  { c.lose x with
    next := if c.next = .text x then .ofText? follower else c.next
    parent := if follower = some y then .ofText? b.after? else c.parent
    parentInput := if follower = some y then .null else c.parentInput
    position := if follower = some y ∧ b.after? = none then b.position else c.position }

namespace Block

variable {b c : Block} {x y p : String} {follower : Option String}

theorem Shaped.after?_eq_some (h : b.Shaped) : b.after? = some p ↔ b.seat? = some (p, none) := by
  rcases h.seat with ⟨hp, hi⟩ | ⟨q, hq, hi | ⟨s, hi⟩⟩
  · simp [after?, seat?, hp, hi]
  · simp [after?, seat?, hq, hi]
  · simp [after?, seat?, hq, hi]

theorem bereft_none (x : String) (b : Block) (y : String) : bereft x b none y = (·.lose x) := by
  funext c
  simp [bereft, lose, Value.ofText?]

/-- A block that does not lead to the deleted one leads to what it led to. -/
theorem Shaped.child?_bereft (h : c.Shaped) (hx : ∀ s, c.child? s ≠ some x) (s : Slot) :
    (bereft x b follower y c).child? s = c.child? s := by
  have hlose := h.lose_eq_self hx
  have hnext : c.next ≠ .text x := fun e => hx none (by rw [child?, e]; rfl)
  cases s with
  | none => simp [bereft, child?, hnext]
  | some s =>
      have hinputs : (c.lose x).inputs = c.inputs := congrArg Block.inputs hlose
      simp [bereft, child?, hinputs]

end Block

namespace Workspace

variable {w w' : Workspace} {x y n : String} {xs : List String} {b : Block}

/-- Whether one gets down from a block to another one, through sockets or to what follows. -/
def Below (w : Workspace) (x y : String) : Prop :=
  Relation.ReflTransGen (fun p c => ∃ s, w.child? p s = some c) x y

/-- What is removed with a block: all that is below it, or what is below its sockets when the block
that follows it stays. -/
def Goes (w : Workspace) (x : String) (follower : Option String) (y : String) : Prop :=
  match follower with
  | none => w.Below x y
  | some _ => y = x ∨ ∃ s c, w.child? x (some s) = some c ∧ w.Below c y

/-- What comes of deleting the block `b` under the name `x`. -/
structure Removed (w : Workspace) (x : String) (b : Block) (follower : Option String)
    (xs : List String) (w' : Workspace) : Prop where
  retabled : w.Retabled w'
  nodup : xs.Nodup
  removed : ∀ y, y ∈ xs ↔ w.Goes x follower y
  keys : w'.entries.map (·.1) = (w.entries.map (·.1)).filter fun k => !xs.any (k == .text ·)
  block? : ∀ y ∉ xs, w'.block? y = (w.block? y).map (Block.bereft x b follower y)
  spared : ∀ n, follower = some n → ∀ y, w'.Below n y ↔ w.Below n y

/-! ### Up and down -/

theorem Sound.below_iff (h : w.Sound) : w.Below x y ↔ Hangs w.above? y x := by
  unfold Below Hangs
  rw [← Relation.reflTransGen_swap]
  refine iff_of_eq (congrArg (Relation.ReflTransGen · y x) ?_)
  funext c p
  exact propext ⟨fun ⟨_, hs⟩ => h.above?_of_child? hs, fun hp =>
    (above?_eq_some.mp hp).imp fun _ hs => (h.linked ..).mpr hs⟩

/-- What hangs from a block still does once the block is cut off. -/
theorem hangs_cut_self : Hangs (w.cut x).above? y x ↔ Hangs w.above? y x := by
  constructor
  · exact hangs_of_hangs_cut
  · intro hy
    induction hy using Relation.ReflTransGen.head_induction_on with
    | refl => exact .refl
    | @head y z hyz _ ih =>
        by_cases hyx : x = y
        · rw [hyx]
          exact .refl
        · refine .step ?_ ih
          rw [above?_cut, if_neg hyx, hyz]

/-- What hangs from a block once what follows it is cut off: the block, and what is below its
sockets. -/
theorem Sound.hangs_cut_next (h : w.Sound) (hn : w.child? x none = some n) :
    Hangs (w.cut n).above? y x ↔ y = x ∨ ∃ s c, w.child? x (some s) = some c ∧ w.Below c y := by
  have hnx : w.above? n = some x := h.above?_of_child? hn
  constructor
  · intro hy
    rcases Relation.ReflTransGen.cases_tail hy with hxy | ⟨c, hyc, hc⟩
    · exact .inl hxy.symm
    · rw [above?_cut] at hc
      split at hc
      · cases hc
      · rename_i hnc
        obtain ⟨s, hs⟩ := above?_eq_some.mp hc
        have hs := (h.linked ..).mpr hs
        cases s with
        | none => exact absurd (Option.some.inj (hn.symm.trans hs)) hnc
        | some s => exact .inr ⟨s, c, hs, h.below_iff.mpr (hangs_of_hangs_cut hyc)⟩
  · rintro (rfl | ⟨s, c, hc, hcy⟩)
    · exact .refl
    · have hcx := h.above?_of_child? hc
      have hnc : n ≠ c := by
        rintro rfl
        exact nomatch (h.linked.unique hn hc).2
      refine .tail ?_ (show (w.cut n).above? c = some x by rw [above?_cut, if_neg hnc, hcx])
      -- the way up to `c` does not lead through what follows
      have hyc := h.below_iff.mp hcy
      induction hyc using Relation.ReflTransGen.head_induction_on with
      | refl => exact .refl
      | @head y z hyz hzc ih =>
          refine .head ?_ (ih (h.below_iff.mpr hzc))
          rw [above?_cut, if_neg, hyz]
          rintro rfl
          obtain rfl := Option.some.inj (hnx.symm.trans hyz)
          exact h.rooted.not_hangs hcx hzc

/-- What is below a block that was cut off is not below the one that it was cut off from. -/
theorem Sound.not_hangs_cut (h : w.Sound) (hn : w.child? x none = some n) (hy : w.Below n y) :
    ¬ Hangs (w.cut n).above? y x := by
  intro hx
  have hnx : w.above? n = some x := h.above?_of_child? hn
  rcases (hangs_cut_self.mpr (h.below_iff.mp hy)).total hx with k | k
  · rw [k.eq_of_root (above?_cut_self w n)] at hnx
    exact h.rooted.not_hangs hnx .refl
  · exact h.rooted.not_hangs hnx (hangs_of_hangs_cut k)

/-- What is below a block stays as long as none of it loses a link. -/
theorem below_congr (h : ∀ z, w.Below n z → ∀ s, w'.child? z s = w.child? z s) :
    w'.Below n y ↔ w.Below n y := by
  constructor
  · intro hy
    induction hy with
    | refl => exact .refl
    | tail _ hs ih =>
        obtain ⟨s, hs⟩ := hs
        exact .tail ih ⟨s, (h _ ih s).symm.trans hs⟩
  · intro hy
    induction hy with
    | refl => exact .refl
    | tail hz hs ih =>
        obtain ⟨s, hs⟩ := hs
        exact .tail ih ⟨s, (h _ hz s).trans hs⟩

/-! ### The names of the blocks that are left -/

theorem keys_discard (w : Workspace) (xs : List String) : (w.discard xs).entries.map (·.1) =
    (w.entries.map (·.1)).filter fun k => !xs.any (k == .text ·) := by
  induction xs generalizing w with
  | nil => simp [discard]
  | cons x xs ih =>
      have hdrop : (w.drop x).entries.map (·.1) =
          (w.entries.map (·.1)).filter fun k => !(k == .text x) := by
        rw [List.filter_map]
        exact congrArg (List.map (·.1)) (Table.entries_erase w.table (.text x))
      rw [discard_cons, ih, hdrop, List.filter_filter]
      refine List.filter_congr fun k _ => ?_
      rw [List.any_cons, Bool.not_or, Bool.and_comm]

/-! ### Deleting -/

/-- Where a block is cut off, and then the one that it followed, the rest of the blocks is left as it
was, but for the links to the two. -/
theorem Sound.block?_cut_cut (h : w.Sound) (hn : w.child? x none = some n) (hyx : y ≠ x) :
    ((w.cut n).cut x).block? y =
      (w.block? y).map fun c => if y = n then (c.lose x).loosen else c.lose x := by
  rw [(h.cut n).block?_cut, block?_cut_next ((h.linked ..).mp hn)]
  cases w.block? y with
  | none => rfl
  | some c =>
      by_cases hyn : y = n
      · subst hyn
        simp [hyx, Block.lose, Block.loosen]
      · simp [hyx, hyn]

/-- What is removed, and what is spared, where the block that follows stays. -/
theorem Sound.removed_of_next (h : w.Sound) (hn : w.child? x none = some n)
    (hxs : ((w.cut n).cut x).Branch x xs) (hw : w.Retabled w')
    (hkeys : w'.entries.map (·.1) = (((w.cut n).cut x).discard xs).entries.map (·.1))
    (hblock : ∀ y ∉ xs, w'.block? y = (w.block? y).map (Block.bereft x b (some n) y)) :
    w.Removed x b (some n) xs w' := by
  have hgoes (y : String) : y ∈ xs ↔ w.Goes x (some n) y := by
    rw [hxs.2, hangs_cut_self, h.hangs_cut_next hn, Goes]
  refine ⟨hw, hxs.1, hgoes, ?_, hblock, ?_⟩
  · rw [hkeys, keys_discard, keys_cut, keys_cut]
  · rintro _ ⟨⟩ y
    refine below_congr fun z hz s => ?_
    have hzx : z ∉ xs := by
      rw [hxs.2, hangs_cut_self]
      exact h.not_hangs_cut hn hz
    rw [child?, child?, hblock z hzx]
    cases hc : w.block? z with
    | none => rfl
    | some c =>
        refine (h.shaped z c hc).child?_bereft (fun s hs => ?_) s
        have hxz : w.above? x = some z := h.above?_of_child? (child?_eq_some.mpr ⟨c, hc, hs⟩)
        have hnx : w.above? n = some x := h.above?_of_child? hn
        exact h.rooted.not_hangs hxz ((h.below_iff.mp hz).tail hnx)

/-- A block says that another one follows it just when that one says so. -/
theorem Sound.next_eq_text (h : w.Sound) {c : Block} (hy : w.block? y = some c) :
    c.next = .text x ↔ w.seat? x = some (y, none) := by
  rw [← h.linked, h.next_eq hy]
  cases w.child? y none <;> simp [Value.ofText?]

/-- The block that follows is put behind the one that the deleted block followed. -/
theorem Sound.block?_healed (h : w.Sound) (hx : w.block? x = some b) {p : String}
    (hp : w.seat? x = some (p, none)) (hn : w.child? x none = some n) (hyx : y ≠ x)
    (hy : y ∉ xs) : ((((w.cut n).cut x).discard xs).bind p none n).block? y =
      (w.block? y).map (Block.bereft x b (some n) y) := by
  have hafter : b.after? = some p := by
    rw [(h.shaped x b hx).after?_eq_some, ← hp, seat?, hx, Option.bind_some]
  have hpn : p ≠ n := by
    rintro rfl
    exact h.rooted.not_hangs (above?_eq_some.mpr ⟨_, hp⟩)
      (Relation.ReflTransGen.single (h.above?_of_child? hn))
  rw [block?_bind_next, block?_discard, if_neg hy, h.block?_cut_cut hn hyx]
  cases hc : w.block? y with
  | none => rfl
  | some c =>
      have hcx : c.next = .text x ↔ y = p := by
        rw [h.next_eq_text hc, hp]
        simp [eq_comm]
      by_cases hyp : y = p
      · subst hyp
        simp [Block.bereft, hafter, hcx.mpr rfl, hpn, Ne.symm hpn, Value.ofText?]
      · have hcn : c.next ≠ .text x := fun e => hyp (hcx.mp e)
        by_cases hyn : y = n
        · subst hyn
          simp [Block.bereft, hafter, hyp, hcn, Value.ofText?, Block.loosen]
        · simp [Block.bereft, hafter, hyp, hyn, Ne.symm hyn, hcn]

/-- The block that follows takes the position of a block that followed none. -/
theorem Sound.block?_raised (h : w.Sound) (hx : w.block? x = some b)
    (hp : ∀ p, w.seat? x ≠ some (p, none)) (hn : w.child? x none = some n) (hyx : y ≠ x)
    (hy : y ∉ xs) : ((((w.cut n).cut x).discard xs).edit n fun c =>
        { c with position := b.position }).block? y =
      (w.block? y).map (Block.bereft x b (some n) y) := by
  have hafter : b.after? = none := by
    cases ha : b.after? with
    | none => rfl
    | some p =>
        have hseat := (h.shaped x b hx).after?_eq_some.mp ha
        exact absurd (by rw [seat?, hx, Option.bind_some, hseat]) (hp p)
  rw [block?_edit, block?_discard, if_neg hy, h.block?_cut_cut hn hyx]
  cases hc : w.block? y with
  | none => split <;> rfl
  | some c =>
      have hcn : c.next ≠ .text x := fun e => hp y ((h.next_eq_text hc).mp e)
      by_cases hyn : y = n
      · subst hyn
        simp [Block.bereft, hafter, hcn, Value.ofText?, Block.loosen]
      · simp [Block.bereft, Block.lose, hyn, Ne.symm hyn, hcn]

theorem Sound.removed (h : w.Sound) (hx : w.block? x = some b) {heal : Bool}
    (hd : w.Deleted x heal xs w') :
    w.Removed x b (if heal then w.next? x else none) xs w' := by
  have retabled_heal {n : String} : w.Retabled (((w.cut n).cut x).discard xs) :=
    ((retabled_cut w n).trans (retabled_cut _ x)).trans (retabled_discard ..)
  cases hd with
  | whole hlast hxs =>
      have hfollower : (if heal then w.next? x else none) = none := by
        split
        · rename_i hheal
          exact hlast hheal
        · rfl
      have hgoes (y : String) : y ∈ xs ↔ w.Below x y := by
        rw [hxs.2, hangs_cut_self, h.below_iff]
      rw [hfollower]
      refine ⟨(retabled_cut w x).trans (retabled_discard ..), hxs.1, hgoes, ?_, fun y hy => ?_, nofun⟩
      · rw [keys_discard, keys_cut]
      · have hyx : y ≠ x := fun e => hy (e ▸ (hgoes x).mpr .refl)
        rw [block?_discard, if_neg hy, h.block?_cut, Block.bereft_none]
        simp [hyx]
  | @healed p n _ hheal hp hn hxs =>
      rw [hheal, if_pos rfl, next?, hn]
      refine h.removed_of_next hn hxs (retabled_heal.trans (retabled_bind ..)) (keys_bind ..)
        fun y hy => ?_
      exact h.block?_healed hx hp hn (fun e => hy (e ▸ (hxs.2 x).mpr .refl)) hy
  | @raised n _ b' hheal hb hp hn hxs =>
      obtain rfl := Option.some.inj (hx.symm.trans hb)
      rw [hheal, if_pos rfl, next?, hn]
      refine h.removed_of_next hn hxs (retabled_heal.trans (retabled_edit ..)) (keys_edit ..)
        fun y hy => ?_
      exact h.block?_raised hx hp hn (fun e => hy (e ▸ (hxs.2 x).mpr .refl)) hy

/-- What is removed is not there any more. -/
theorem Removed.block?_of_mem {follower : Option String} (h : w.Removed x b follower xs w')
    (hy : y ∈ xs) : w'.block? y = none := by
  refine Option.not_isSome_iff_eq_none.mp fun hsome => ?_
  have hmem := text_mem_keys.mpr hsome
  rw [h.keys, List.mem_filter, Bool.not_eq_true', List.any_eq_false] at hmem
  exact hmem.2 y hy BEq.rfl

end Workspace

/-! ### Calls -/

namespace History

variable {σ τ : Type} {a : Audience σ} {c : Audience τ} {v : Vocabulary} {g : Workspace}
  {s : Scene τ}

/-- **Deleting a block removes what is below it, or below its sockets, and nothing else.**  The audience
hears of one change, which lists what is removed, each block once.  Where the chain is healed and a
block follows, that one keeps all that is below it and follows what the deleted block followed, or
hangs nowhere, at the position of the deleted block; every other block that is left is what it was, but
for its link to the deleted one. -/
theorem removes (ha : a.Tame) (ho : a.Open) (hv : v.Worded) (hg : History a v g)
    (hs : s.workspace = g) {x : String} {b : Block} (hx : g.block? x = some b) (heal : Bool) :
    ∃ xs w', g.Removed x b (if heal then g.next? x else none) xs w' ∧
      Act.perform c (Edit.delete (.text x) heal) s =
        c.hear ⟨.delete, .text x, g.dragging, [(.text "ids", .list (xs.map .text))]⟩
          { s with workspace := w' } := by
  subst hs
  have hsound := hg.sound ha hv
  have hends : Ends (Edit.delete (.text x) heal) s.workspace
      (fun ns w' => ∃ xs, s.workspace.Deleted x heal xs w' ∧ ns = Edit.deleted (.text x) xs)
      fun _ _ => False := by
    refine Edit.ends_delete hsound (fun _ hn => nomatch hn.symm.trans hx) fun y xs w' hy hd => ?_
    cases hy
    exact ⟨xs, hd, rfl⟩
  obtain ⟨_, w', hok, xs, hd, rfl⟩ := hends.exists_ok
  have hremoved := hsound.removed hx hd
  refine ⟨xs, w', hremoved, ?_⟩
  have hm : w'.muted = 0 := hremoved.retabled.muted.trans (hg.unmuted ho)
  rw [Act.perform_of_ok hok, Edit.deleted, Act.tellAll_single hm, ← hremoved.retabled.dragging]
  rfl

/-- The first of two blocks is deleted, and the other one stays, at the top. -/
theorem removes_first : ∃ (g : Workspace) (t : Scene (List Change)), History .journal .stock g ∧
    g.next? "a" = some "b" ∧
    Act.perform .journal (Edit.delete (.text "a") true) { workspace := g, audience := [] } = .ok () t ∧
    t.audience = [⟨.delete, .text "a", g.dragging, [(.text "ids", .list [.text "a"])]⟩] ∧
    t.workspace.block? "a" = none ∧
    ∃ b, t.workspace.block? "b" = some b ∧ b.isTop = true := by
  obtain ⟨g, hg, h⟩ := exists_row
  let s : Scene (List Change) := { workspace := g, audience := [] }
  have ha : g.block? "a" = some { Severing.waiter "a" with next := .text "b" } :=
    (h.find?_eq _).trans rfl
  have hb : g.block? "b" = some { Severing.waiter "b" with parent := .text "a" } :=
    (h.find?_eq _).trans rfl
  have hnext : g.next? "a" = some "b" := Workspace.child?_eq_some.mpr ⟨_, ha, rfl⟩
  obtain ⟨xs, w', hremoved, hperform⟩ := removes (c := .journal) (s := s) Audience.tame_journal
    Audience.open_journal Vocabulary.worded_stock hg rfl ha true
  rw [if_pos rfl, hnext] at hremoved
  have hxs (y : String) : y ∈ xs ↔ y ∈ ["a"] := by
    rw [hremoved.removed, Workspace.Goes, List.mem_singleton]
    refine or_iff_left ?_
    rintro ⟨socket, c, hc, -⟩
    rw [Workspace.child?, ha] at hc
    cases hc
  obtain rfl : xs = ["a"] := List.perm_singleton.mp
    ((List.perm_ext_iff_of_nodup hremoved.nodup (List.nodup_singleton "a")).mpr hxs)
  refine ⟨g, _, hg, hnext, hperform, rfl, hremoved.block?_of_mem (List.mem_singleton_self _), ?_⟩
  exact ⟨_, (hremoved.block? "b" (by decide)).trans (congrArg _ hb), rfl⟩

end History

namespace Loading

/-- Where a block in a socket without a name is deleted, the block that it was in does not lose the
link to it, but the one to the block that follows. -/
theorem not_always_removed : ∃ s u : Scene (List Change),
    History .journal namelessVocabulary s.workspace ∧ s.workspace.block? "c" = some (hung "c") ∧
      Act.perform .journal (Edit.delete (.text "c") false) s = .ok () u ∧
      u.workspace.block? "p" = some plugged ∧
      ¬ ∃ xs w', s.workspace.Removed "c" (hung "c") none xs w' ∧
        Audience.journal.hear ⟨.delete, .text "c", s.workspace.dragging,
          [(.text "ids", .list (xs.map .text))]⟩ { s with workspace := w' } = .ok () u := by
  obtain ⟨g, hg, h⟩ := exists_linked
  let s : Scene (List Change) := { workspace := g, audience := [] }
  have hends : Ends (Edit.delete (.text "c") false) g
      (fun ns u => ns = Edit.deleted (.text "c") ["c"] ∧
        u.Listed namelessVocabulary 0 [(.text "p", plugged), (.text "n", hung "n")])
      fun _ _ => False :=
    ends_drop h fun _ hu => ⟨rfl, hu⟩
  obtain ⟨_, w, hok, rfl, hw⟩ := hends.exists_ok
  have hperform := Act.perform_of_ok (a := .journal) (s := s) hok
  rw [Edit.deleted, Act.tellAll_single hw.muted] at hperform
  have hp : w.block? "p" = some plugged := (hw.find?_eq _).trans rfl
  refine ⟨s, _, hg, (h.find?_eq _).trans rfl, hperform, hp, ?_⟩
  rintro ⟨xs, w', hremoved, hheard⟩
  obtain rfl : w = w' := (Audience.records_journal _ _ _ hheard).1
  have hpx : "p" ∉ xs := fun hpx => nomatch hp.symm.trans (hremoved.block?_of_mem hpx)
  have hbereft := hremoved.block? "p" hpx
  have hlinked : g.block? "p" = some { plugged with next := .text "n" } := (h.find?_eq _).trans rfl
  rw [hp, hlinked, Option.map_some] at hbereft
  have hnext : plugged.next = .text "n" := congrArg Block.next (Option.some.inj hbereft)
  exact absurd hnext (by decide)

end Loading

end Blockwork
