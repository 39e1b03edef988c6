import Blockwork.Proofs.Copying
import Blockwork.Snapshot.Rebuild

/-!
# Growing copies

What is built from the outline that shows a workspace is a copy of it.  Each block comes with all
that is plugged into it (`Snapshot.grows`), each chain with all that hangs from its first block
(`Snapshot.ends_growStrand`), and all chains make the whole of the original, their first blocks in
order (`Snapshot.ends_growAll`).

A block is new when it is created, since all that was copied before hangs from other blocks: from
one block to the next, two children of one block have nothing below them in common.
-/

namespace Blockwork

open Forest (Hangs Lineage)
open Snapshot (Entry Strand)

/-! ### Entries that are built -/

/-- Whether a position is one to create a copy of a block at. -/
def Block.Lies (b : Block) (position : Value) : Prop :=
  ∃ x y, position = .list [.float x, .float y] ∧
    (b.isTop = true → b.position = [.float x, .float y])

theorem Edit.coordinates_list (x y : Binary64) :
    coordinates (.list [.float x, .float y]) = .ok [.float x, .float y] := rfl

namespace Snapshot

variable {σ : Type} {a : Audience σ} {g : Workspace} {n muted : Nat} {done : List String}
  {hung : String → Prop} {x : String} {b : Block} {s : Scene σ}

/-- A copy of a block is created. -/
theorem ends_place (hg : g.Storable n) (h : g.Copies muted s.workspace done hung) (hm : muted ≠ 0)
    (hb : g.block? x = some b) (hx : x ∉ done) {position : Value} (hp : b.Lies position)
    {good : Key → Scene σ → Prop} {bad : Error → Scene σ → Prop}
    (hgood : ∀ w, g.Copies muted w (done ++ [x]) hung → good (.text x) { s with workspace := w }) :
    Ends (place a ⟨some b.type, .text x, position, b.fields, !b.isEnabled⟩) s good bad := by
  obtain ⟨d, -, hd⟩ := hg.sound.exists_type hb
  obtain ⟨cx, cy, rfl, htop⟩ := hp
  have hnone : s.workspace.block? x = none := by
    rw [← Option.not_isSome_iff_eq_none, h.isSome_block?]
    exact hx
  have hne := hg.sound.ne_empty hb
  have hdeclared : (do s.workspace.vocabulary.get (← b.type.toKey)) = .ok d := by
    rw [h.vocabulary]
    exact hd
  have creates : Edit.Creates s.workspace b.type (.text x) (.list [.float cx, .float cy]) b.fields d
      b.fields [.float cx, .float cy] :=
    ⟨hdeclared, hg.filled x b d hb hd, Edit.coordinates_list cx cy, .inr hnone⟩
  refine Ends.bind (Ends.bind (Act.ends_edit (Edit.ends_create (.inr ⟨x, rfl⟩) ?_ ?_)))
  · exact fun e hno => absurd creates (hno d b.fields _)
  intro d' fields coords hc
  obtain rfl := Except.ok.inj (hdeclared.symm.trans hc.declared)
  obtain rfl := Except.ok.inj (creates.filled.symm.trans hc.filled)
  obtain rfl := Except.ok.inj ((Edit.coordinates_list cx cy).symm.trans hc.placed)
  let c := Edit.newBlock x b.type d b.fields [.float cx, .float cy]
  have hsound : (s.workspace.insert x c).Sound := h.sound.insert hnone rfl hne rfl hdeclared
  have hkeys := Workspace.keys_insert hnone c
  refine Ends.bind (Act.ends_tellAll_muted (by rw [← h.muted] at hm; exact hm) (Ends.pure ?_))
  -- a new block is enabled, so only one that is turned off is written to once more
  cases hoff : b.isEnabled with
  | true =>
      refine Ends.pure (hgood _ (h.add hsound rfl rfl hkeys (Workspace.block?_insert _ x · c) hx hb
        ⟨rfl, rfl, ?_, fun ht => (htop ht).symm, cx, cy, rfl⟩ rfl))
      rw [hoff]
      rfl
  | false =>
      let off (b : Block) : Block := { b with enabled := .bool false }
      have hblock (y : String) : ((s.workspace.insert x c).edit x off).block? y =
          if x = y then some (off c) else s.workspace.block? y := by
        rw [Workspace.block?_edit, Workspace.block?_insert]
        split <;> rfl
      refine Ends.bind (Act.ends_edit (Ends.modify (Ends.pure (hgood _ (h.add
        (hsound.edit (Workspace.harmless_enabled _) x) rfl rfl
        ((Workspace.keys_edit _ x off).trans hkeys) hblock hx hb
        ⟨rfl, rfl, ?_, fun ht => (htop ht).symm, cx, cy, rfl⟩ rfl)))))
      rw [hoff]

end Snapshot

/-! ### What hangs from a block -/

namespace Workspace

variable {g : Workspace} {n : Nat} {x y z : String} {l : List String}

/-- Whether a block hangs from one that is in a socket of a block. -/
def InSockets (g : Workspace) (x z : String) : Prop :=
  ∃ s c, g.child? x (some s) = some c ∧ Hangs g.above? z c

/-- Whether a block hangs from the one behind a block. -/
def Behind (g : Workspace) (x z : String) : Prop :=
  ∃ c, g.child? x none = some c ∧ Hangs g.above? z c

/-- What hangs from a block is the block, or hangs from its sockets, or from the block behind it. -/
theorem Sound.hangs_iff (h : g.Sound) :
    Hangs g.above? z x ↔ z = x ∨ g.InSockets x z ∨ g.Behind x z := by
  constructor
  · intro hz
    rcases Relation.ReflTransGen.cases_tail hz with rfl | ⟨c, hzc, hc⟩
    · exact .inl rfl
    · obtain ⟨s, hs⟩ := above?_eq_some.mp hc
      have hchild := (h.linked ..).mpr hs
      cases s with
      | none => exact .inr (.inr ⟨c, hchild, hzc⟩)
      | some s => exact .inr (.inl ⟨s, c, hchild, hzc⟩)
  · rintro (rfl | ⟨s, c, hc, hz⟩ | ⟨c, hc, hz⟩)
    · exact .refl
    · exact hz.tail (h.above?_of_child? hc)
    · exact hz.tail (h.above?_of_child? hc)

/-- Nothing hangs from two children of a block. -/
theorem Sound.eq_of_child (h : g.Sound) {s t : Slot} {c d : String} (hc : g.child? x s = some c)
    (hd : g.child? x t = some d) (hzc : Hangs g.above? z c) (hzd : Hangs g.above? z d) : s = t := by
  obtain rfl := h.rooted.branch_unique (h.above?_of_child? hc) (h.above?_of_child? hd) hzc hzd
  exact (h.linked.unique hc hd).2

/-- A block does not hang from its children. -/
theorem Sound.not_hangs_child (h : g.Sound) {s : Slot} {c : String} (hc : g.child? x s = some c) :
    ¬ Hangs g.above? x c := h.rooted.not_hangs (h.above?_of_child? hc)

/-- Nothing follows a block that is in a socket. -/
theorem Storable.child?_none (h : g.Storable n) {s : String}
    (hy : g.seat? y = some (x, some s)) : g.child? y none = none := by
  by_contra hc
  obtain ⟨c, hc⟩ := Option.ne_none_iff_exists'.mp hc
  obtain ⟨-, e, -, he, socket, -, hvalue, -⟩ := h.sound.suited _ _ _ hy
  obtain ⟨d, -, hd, -, hnext, -⟩ := h.sound.suited _ _ _ ((h.sound.linked ..).mp hc)
  obtain rfl := Option.some.inj (he.symm.trans hd)
  rw [h.vocabulary.apart e (mem_of_type? he) hvalue] at hnext
  cases hnext

theorem Storable.mem_cons_iff (h : g.Storable n) {s : String} (hy : g.seat? y = some (x, some s))
    (hl : ∀ z, z ∈ l ↔ g.InSockets y z) : z ∈ y :: l ↔ Hangs g.above? z y := by
  rw [h.sound.hangs_iff, List.mem_cons, hl]
  refine or_congr_right (Iff.symm (or_iff_left ?_))
  rintro ⟨c, hc, -⟩
  rw [h.child?_none hy] at hc
  cases hc

/-- What hangs from the block behind a block is not among the block, what is in its sockets, and
what does not hang from it. -/
theorem Sound.not_behind (h : g.Sound) {done : List String}
    (hdone : ∀ z ∈ done, ¬ Hangs g.above? z x) (hl : ∀ z, z ∈ l ↔ g.InSockets x z) :
    ∀ z ∈ done ++ x :: l, ¬ g.Behind x z := by
  rintro z hz ⟨c, hc, hzc⟩
  rcases List.mem_append.mp hz with hz | hz
  · exact hdone z hz (hzc.tail (h.above?_of_child? hc))
  · rcases List.mem_cons.mp hz with rfl | hz
    · exact h.not_hangs_child hc hzc
    · obtain ⟨s, d, hd, hzd⟩ := (hl z).mp hz
      cases h.eq_of_child hc hd hzc hzd

theorem Copies.not_hung {w : Workspace} {muted : Nat} {done : List String} {hung : String → Prop}
    (h : Copies g muted w done hung) (hx : x ∉ done) {q : String × Slot}
    (hq : g.seat? x = some q) : ¬ hung x := fun hh => by
  obtain ⟨b, hb, -⟩ := seat?_eq_some.mp ((h.seats x q).mpr ⟨hh, hq⟩)
  exact hx (h.isSome_block?.mp (by rw [hb]; rfl))

end Workspace

theorem Workspace.Sound.lies_origin {g : Workspace} (h : g.Sound) {b : Block} {x : String}
    {q : String × Slot} (hb : g.block? x = some b) (hq : g.seat? x = some q) :
    b.Lies Snapshot.origin := by
  refine ⟨_, _, rfl, fun htop => ?_⟩
  have habove := (h.isTop_iff hb).mp htop
  rw [Workspace.above?_eq_none, hq] at habove
  cases habove

namespace Snapshot

variable {σ : Type} {a : Audience σ} {g : Workspace} {k n muted : Nat}

/-- Whether building the entry of a block makes copies of the block and of what is in its sockets,
for entries of blocks with no more than `n` values plugged into one another. -/
def Grows (a : Audience σ) (g : Workspace) (muted n : Nat) : Prop :=
  ∀ {position : Value} {x : String} {b : Block} {e : Entry} {s : Scene σ} {done : List String}
    {hung : String → Prop} {good : Key → Scene σ → Prop} {bad : Error → Scene σ → Prop},
    g.Shows n position x e → g.block? x = some b → b.Lies position →
    g.Copies muted s.workspace done hung → (∀ z ∈ done, ¬ Hangs g.above? z x) →
    (∀ w l, g.Copies muted w (done ++ x :: l) (fun z => hung z ∨ z ∈ l) →
      (∀ z, z ∈ l ↔ g.InSockets x z) → w.seat? x = none →
      good (.text x) { s with workspace := w }) →
    Ends (grow a e) s good bad

section

variable {x : String} {s : Scene σ} {done : List String} {hung : String → Prop}
  {good : Unit → Scene σ → Prop} {bad : Error → Scene σ → Prop}

/-- Building what is plugged into a block makes copies of it and plugs them in. -/
theorem ends_growInputs (hg : g.Storable k) (hm : muted ≠ 0) (grows : Grows a g muted n)
    {ps : List (String × String)} {inputs : List (Key × Option Entry)}
    (hall : List.Forall₂ (fun p i => ∃ e, i = (.text p.1, some e) ∧ g.Shows n origin p.2 e)
      ps inputs)
    (hps : ∀ p ∈ ps, g.child? x (some p.1) = some p.2) (hnd : (ps.map (·.1)).Nodup)
    (h : g.Copies muted s.workspace done hung) (hx : x ∈ done)
    (hfresh : ∀ z ∈ done, ∀ p ∈ ps, ¬ Hangs g.above? z p.2)
    (hgood : ∀ w l, g.Copies muted w (done ++ l) (fun z => hung z ∨ z ∈ l) →
      (∀ z, z ∈ l ↔ ∃ p ∈ ps, Hangs g.above? z p.2) → good () { s with workspace := w }) :
    Ends (growInputs a (.text x) inputs) s good bad := by
  -- over the sockets still to be filled: what is `done` grows, and nothing in it hangs from them
  induction hall generalizing s done hung with
  | nil =>
      refine Ends.pure (hgood s.workspace [] ?_ (by simp))
      rw [List.append_nil]
      exact h.congr fun _ _ _ => by simp
  | @cons p i ps inputs hi _ ih =>
      obtain ⟨e, rfl, hshows⟩ := hi
      have hchild := hps p List.mem_cons_self
      have hseat := (hg.sound.linked ..).mp hchild
      obtain ⟨c, hc⟩ := Option.isSome_iff_exists.mp (hg.sound.isSome_child hchild)
      have hps' := fun q hq => hps q (List.mem_cons_of_mem p hq)
      obtain ⟨hnew, hnd⟩ := List.nodup_cons.mp hnd
      refine Ends.bind (Ends.bind (grows hshows hc (hg.sound.lies_origin hc hseat) h
        (fun z hz => hfresh z hz p List.mem_cons_self) fun w l hw hl hloose => ?_))
      have hbranch (z : String) : z ∈ p.2 :: l ↔ Hangs g.above? z p.2 := hg.mem_cons_iff hseat hl
      refine Act.ends_perform_muted (Edit.ends_connectValue_copy hw hg.sound
        (List.mem_append_left _ hx) (List.mem_append_right _ List.mem_cons_self) hloose hseat
        fun ns hbound => ⟨hbound.muted ▸ hm, ?_⟩)
      refine ih hps' hnd hbound (List.mem_append_left _ hx) (fun z hz q hq => ?_) ?_
      · rcases List.mem_append.mp hz with hz | hz
        · exact hfresh z hz q (List.mem_cons_of_mem p hq)
        · -- nothing hangs from two sockets of one block
          intro hzq
          have hslot := hg.sound.eq_of_child hchild (hps' q hq) ((hbranch z).mp hz) hzq
          exact hnew (List.mem_map.mpr ⟨q, hq, (Option.some.inj hslot).symm⟩)
      · intro w' l' hw' hl'
        refine hgood w' (p.2 :: l ++ l') ?_ fun z => ?_
        · rw [← List.append_assoc]
          exact hw'.congr fun z _ _ => by
            simp only [List.mem_append, List.mem_cons]
            tauto
        · rw [List.mem_append, hbranch, hl']
          simp

/-- **Building an entry copies a block with all that is plugged into it.**  The induction is on how
deeply values are plugged into one another. -/
theorem grows (a : Audience σ) (hg : g.Storable k) (hm : muted ≠ 0) (n : Nat) :
    Grows a g muted n := by
  induction n with
  | zero =>
      intro position x b e s done hung good bad he
      exact he.elim
  | succ n ih =>
      intro position x b e s done hung good bad he hb hlies h hfresh hgood
      obtain ⟨b', d, inputs, hb', hd, rfl, hall⟩ := he
      obtain rfl := Option.some.inj (hb.symm.trans hb')
      obtain ⟨d', htype, hd'⟩ := hg.sound.exists_type hb
      obtain rfl := Except.ok.inj (hd.symm.trans hd')
      have hplugged : ∀ p ∈ g.plugged x d, g.child? x (some p.1) = some p.2 := fun p hp =>
        (hg.sound.mem_plugged htype).mp hp
      have hx : x ∉ done := fun hx => hfresh x hx .refl
      refine Ends.bind (ends_place hg h hm hb hx hlies fun w hw => ?_)
      refine Ends.bind (ends_growInputs hg hm ih hall hplugged ?_ hw
        (List.mem_append_right _ List.mem_cons_self) (fun z hz p hp hzp => ?_) fun w' l hw' hl => ?_)
      · exact Workspace.nodup_plugged (hg.vocabulary.distinct d (Workspace.mem_of_type? htype))
      · have hpx := hg.sound.above?_of_child? (hplugged p hp)
        rcases List.mem_append.mp hz with hz | hz
        · exact hfresh z hz (hzp.tail hpx)
        · obtain rfl := List.mem_singleton.mp hz
          exact hg.sound.not_hangs_child (hplugged p hp) hzp
      · have hin (z : String) : z ∈ l ↔ g.InSockets x z := by
          rw [hl]
          constructor
          · rintro ⟨p, hp, hz⟩
            exact ⟨p.1, p.2, hplugged p hp, hz⟩
          · rintro ⟨t, c, hc, hz⟩
            exact ⟨(t, c), (hg.sound.mem_plugged htype).mpr hc, hz⟩
        -- `x` is plugged in by whoever asked for its copy, not yet
        have hloose : w'.seat? x = none := by
          by_contra hq
          obtain ⟨q, hq⟩ := Option.ne_none_iff_exists'.mp hq
          obtain ⟨hhung, hgq⟩ := (hw'.seats x q).mp hq
          rcases hhung with hhung | hxl
          · exact h.not_hung hx hgq hhung
          · obtain ⟨t, c, hc, hxc⟩ := (hin x).mp hxl
            exact hg.sound.not_hangs_child hc hxc
        rw [List.append_assoc] at hw'
        exact Ends.pure (hgood w' l hw' hin hloose)

/-- Building the blocks that follow a block makes copies of them, each behind the one before it. -/
theorem ends_growAfter (hg : g.Storable k) (hm : muted ≠ 0) {m : List String} {es : List Entry}
    (hall : List.Forall₂ (g.Shows n origin) m es) (hchain : Lineage g.next? x (x :: m))
    (h : g.Copies muted s.workspace done hung) (hx : x ∈ done)
    (hfresh : ∀ z ∈ done, ¬ g.Behind x z)
    (hgood : ∀ w l, g.Copies muted w (done ++ l) (fun z => hung z ∨ z ∈ l) →
      (∀ z, z ∈ l ↔ g.Behind x z) → good () { s with workspace := w }) :
    Ends (growAfter a (.text x) es) s good bad := by
  -- along the chain: what is behind `x` is the next block with all that hangs from it
  induction hall generalizing x s done hung with
  | nil =>
      cases hchain with
      | root hnext =>
          refine Ends.pure (hgood s.workspace [] ?_ fun z => ?_)
          · rw [List.append_nil]
            exact h.congr fun _ _ _ => by simp
          · refine iff_of_false List.not_mem_nil ?_
            rintro ⟨c, hc, -⟩
            rw [Workspace.next?, hc] at hnext
            cases hnext
      | step _ hl => cases hl
  | @cons y e m es he _ ih =>
      obtain ⟨hnext, hchain⟩ : g.next? x = some y ∧ Lineage g.next? y (y :: m) := by
        cases hchain with
        | step hnext hl =>
            cases hl with
            | root hr => exact ⟨hnext, .root hr⟩
            | step hy hl => exact ⟨hnext, .step hy hl⟩
      have hseat := (hg.sound.linked ..).mp hnext
      obtain ⟨c, hc⟩ := Option.isSome_iff_exists.mp (hg.sound.isSome_child hnext)
      have hyfresh : ∀ z ∈ done, ¬ Hangs g.above? z y := fun z hz hzy =>
        hfresh z hz ⟨y, hnext, hzy⟩
      refine Ends.bind (grows a hg hm n he hc (hg.sound.lies_origin hc hseat) h hyfresh
        fun w l hw hl hloose => ?_)
      refine Ends.bind (Act.ends_perform_muted (Edit.ends_connectNext_copy hw hg.sound
        (List.mem_append_left _ hx) (List.mem_append_right _ List.mem_cons_self) hloose hseat
        fun ns hbound => ⟨hbound.muted ▸ hm, ?_⟩))
      refine ih hchain hbound (List.mem_append_right _ List.mem_cons_self)
        (hg.sound.not_behind hyfresh hl) fun w' l' hw' hl' => ?_
      refine hgood w' (y :: l ++ l') ?_ fun z => ?_
      · rw [← List.append_assoc]
        exact hw'.congr fun z _ _ => by
          simp only [List.mem_append, List.mem_cons]
          tauto
      · have hbehind : g.Behind x z ↔ Hangs g.above? z y := by
          refine ⟨?_, fun hz => ⟨y, hnext, hz⟩⟩
          rintro ⟨c, hc, hz⟩
          rwa [← Option.some.inj (hnext.symm.trans hc)] at hz
        rw [hbehind, hg.sound.hangs_iff, List.mem_append, List.mem_cons, hl, hl', or_assoc]

end

/-- Building a chain copies its first block with all that hangs from it. -/
theorem ends_growStrand (hg : g.Storable k) (hm : muted ≠ 0) {strand : Strand} {x : String}
    {b : Block} (hb : g.block? x = some b) (hshows : g.ShowsStrand n b strand) {s : Scene σ}
    {done : List String} {hung : String → Prop} (h : g.Copies muted s.workspace done hung)
    (hfresh : ∀ z ∈ done, ¬ Hangs g.above? z x) {good : Key → Scene σ → Prop}
    {bad : Error → Scene σ → Prop}
    (hgood : ∀ w l, g.Copies muted w (done ++ x :: l) (fun z => hung z ∨ z ∈ l) →
      (∀ z, z ∈ x :: l ↔ Hangs g.above? z x) → good (.text x) { s with workspace := w }) :
    Ends (growStrand a strand) s good bad := by
  obtain ⟨y, m, hid, hchain, htop, hall⟩ := hshows
  obtain rfl : y = x := Value.text.inj (hid.symm.trans (hg.sound.id_eq hb))
  obtain ⟨cx, cy, hpos⟩ := hg.placed y b hb
  refine Ends.bind (grows a hg hm n htop hb ⟨cx, cy, by rw [hpos], fun _ => hpos⟩ h hfresh
    fun w l hw hl _ => ?_)
  refine Ends.bind (ends_growAfter hg hm hall hchain hw (List.mem_append_right _ List.mem_cons_self)
    (hg.sound.not_behind hfresh hl) fun w' l' hw' hl' => Ends.pure (hgood w' (l ++ l') ?_ fun z => ?_))
  · rw [← List.cons_append, ← List.append_assoc]
    exact hw'.congr fun z _ _ => by rw [List.mem_append, or_assoc]
  · rw [hg.sound.hangs_iff, List.mem_cons, List.mem_append, hl, hl']

/-- **Building all chains copies all that hangs from their first blocks**, these in order. -/
theorem ends_growAll (hg : g.Storable k) (hm : muted ≠ 0) {xs : List String}
    {strands : List Strand}
    (hall : List.Forall₂ (fun x strand => ∃ b, g.block? x = some b ∧ g.ShowsStrand n b strand)
      xs strands)
    (hroots : ∀ x ∈ xs, g.above? x = none) (hnd : xs.Nodup) {s : Scene σ} {done : List String}
    {hung : String → Prop} (h : g.Copies muted s.workspace done hung)
    (hfresh : ∀ z ∈ done, ∀ x ∈ xs, ¬ Hangs g.above? z x) {good : List Key → Scene σ → Prop}
    {bad : Error → Scene σ → Prop}
    (hgood : ∀ ks w l, g.Copies muted w (done ++ l) (fun z => hung z ∨ z ∈ l) →
      (∀ z, z ∈ l ↔ ∃ x ∈ xs, Hangs g.above? z x) →
      l.filter (fun z => (g.above? z).isNone) = xs → good ks { s with workspace := w }) :
    Ends (growAll a strands) s good bad := by
  induction hall generalizing s done hung good with
  | nil =>
      refine Ends.pure (hgood _ s.workspace [] ?_ (by simp) rfl)
      rw [List.append_nil]
      exact h.congr fun _ _ _ => by simp
  | @cons x strand xs strands hx _ ih =>
      obtain ⟨b, hb, hshows⟩ := hx
      have hroot := hroots x List.mem_cons_self
      have hroots' := fun y hy => hroots y (List.mem_cons_of_mem x hy)
      obtain ⟨hnew, hnd⟩ := List.nodup_cons.mp hnd
      refine Ends.bind (ends_growStrand hg hm hb hshows h
        (fun z hz => hfresh z hz x List.mem_cons_self) fun w l hw hl => ?_)
      refine Ends.bind (ih hroots' hnd hw (fun z hz y hy hzy => ?_) fun ks w' l' hw' hl' hf' => ?_)
      · rcases List.mem_append.mp hz with hz | hz
        · exact hfresh z hz y (List.mem_cons_of_mem x hy) hzy
        · -- two blocks that hang nowhere have nothing that hangs from both
          have hxy : x = y := by
            rcases ((hl z).mp hz).total hzy with hxy | hyx
            · exact hxy.eq_of_root hroot
            · exact (hyx.eq_of_root (hroots' y hy)).symm
          exact hnew (hxy ▸ hy)
      · refine Ends.pure (hgood _ w' (x :: l ++ l') ?_ (fun z => ?_) ?_)
        · rw [← List.append_assoc]
          refine hw'.congr fun z q hq => ?_
          have hzx : z ≠ x := by
            rintro rfl
            rw [Workspace.above?_eq_none, hq] at hroot
            cases hroot
          simp [hzx, or_assoc]
        · rw [List.mem_append, hl, hl']
          simp
        · -- of what hangs from `x`, only `x` itself hangs nowhere
          have hxl : x ∉ l := (List.nodup_cons.mp (List.nodup_append.mp hw.nodup).2.1).1
          have hseated : l.filter (fun z => (g.above? z).isNone) = [] := by
            refine List.filter_eq_nil_iff.mpr fun z hz => ?_
            rcases ((hl z).mp (List.mem_cons_of_mem x hz)).cases with rfl | ⟨p, hp, -⟩
            · exact absurd hz hxl
            · simp [hp]
          rw [List.cons_append, List.filter_cons_of_pos (by rw [hroot]; rfl), List.filter_append,
            hseated, hf', List.nil_append]

end Snapshot

end Blockwork
