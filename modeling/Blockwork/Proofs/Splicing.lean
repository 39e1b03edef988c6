import Blockwork.Proofs.Chronicle
import Blockwork.Proofs.Clearing
import Blockwork.Proofs.Detaching

/-!
# Chains that are put behind a block

When a block is let follow another one, the blocks that follow it come along.  Then the chain of the
other one is that block, all these, and what followed it before, where the last of these can be
followed; otherwise what followed it before is a chain of its own (`Workspace.Spliced`).  No block
is lost, and of all links only those at the ends of the three parts change (`Block.spliced`).

The block that is put may come from behind the other one, from further down the same chain: then the
part in between is what followed it before.
-/

namespace Blockwork

open Forest (Rooted Hangs Lineage)

/-- The block under a name, after `c` was put behind `p`, and behind `onto` what followed `p`, which
hangs nowhere when there is no `onto`. -/
def Block.spliced (p c : String) (moved onto : Option String) (y : String) (b : Block) : Block :=
  { b.lose c with
    next := if y = p then .text c else if onto = some y then .ofText? moved else (b.lose c).next
    parent := if y = c then .text p else if moved = some y then .ofText? onto else b.parent
    parentInput := if y = c ∨ moved = some y then .null else b.parentInput }

namespace Workspace

variable {w w' : Workspace} {p c : String} {cs ds after : List String}

/-- Whether the chain from a block on is of the blocks with these names. -/
def Chained (w : Workspace) (x : String) (xs : List String) : Prop :=
  ∃ bs, w.chain (.text x) = .ok bs ∧ bs.map (·.1) = xs.map .text

theorem Chained.unique {x : String} {xs ys : List String} (h : w.Chained x xs)
    (k : w.Chained x ys) : xs = ys := by
  obtain ⟨bs, hbs, hxs⟩ := h
  obtain ⟨bs', hbs', hys⟩ := k
  obtain rfl := Except.ok.inj (hbs.symm.trans hbs')
  exact (List.map_injective_iff.mpr fun _ _ => Key.text.inj) (hxs.symm.trans hys)

/-- What a workspace is after a chain was put behind a block: each block is what it was, but for
the links that were made and cut. -/
structure Rehung (w : Workspace) (p c : String) (moved onto : Option String) (w' : Workspace) :
    Prop where
  retabled : w.Retabled w'
  keys : w'.entries.map (·.1) = w.entries.map (·.1)
  block? : ∀ y, w'.block? y = (w.block? y).map (Block.spliced p c moved onto y)

/-- What comes of putting the chain `cs`, which begins with `c`, between `p` and the chain `ds`. -/
inductive Spliced (w : Workspace) (p c : String) (cs ds : List String) (w' : Workspace) : Prop where
  | joined {t : String} {e : Declaration} : cs.getLast? = some t → w.type? t = some e →
      e.next = true → w'.Chained p (p :: (cs ++ ds)) → w.Rehung p c ds.head? (some t) w' →
      Spliced w p c cs ds w'
  | parted {t : String} {e : Declaration} : cs.getLast? = some t → w.type? t = some e →
      e.next = false → w'.Chained p (p :: cs) →
      (∀ d, ds.head? = some d → w'.Chained d ds ∧ w'.above? d = none) →
      w.Rehung p c ds.head? none w' → Spliced w p c cs ds w'

/-! ### Chains -/

theorem Sound.chained (h : w.Sound) {x : String} {xs : List String} (hx : (w.block? x).isSome)
    (hxs : Lineage w.next? x xs) : w.Chained x xs := by
  obtain ⟨m, bs, hm, hbs, hall⟩ := h.exists_chain hx
  obtain rfl := hxs.unique hm
  exact ⟨bs, hbs, map_eq_of_forall₂ hall fun _ _ he => he.1⟩

/-- Cutting off a block that may be put behind another one leaves two chains: the one from the block
on, and what there is of the other one before that block. -/
structure Sunders (w : Workspace) (p c : String) (cs ds : List String) : Prop where
  lower : Lineage (w.cut c).next? c cs
  upper : Lineage (w.cut c).next? p (p :: ds)
  disjoint : ∀ y ∈ p :: ds, y ∉ cs

theorem next?_cut (h : w.Linked) (c y : String) :
    (w.cut c).next? y = if w.next? y = some c then none else w.next? y := child?_cut h c y none

theorem Sound.sunders (h : w.Sound) (hc : w.Connects p none c) (hcs : Lineage w.next? c cs)
    (hafter : Lineage w.next? p (p :: after)) : w.Sunders p c cs (after.takeWhile (· ≠ c)) := by
  have hpc : p ≠ c := fun e => hc.2 (e ▸ .refl)
  have hk := h.cut c
  have lower : Lineage (w.cut c).next? c cs := hcs.congr fun y hy => by
    rw [next?_cut h.linked, if_neg]
    intro hyc
    have hup : Hangs w.above? y c :=
      (hcs.mem_iff.mp hy).reverse fun _ _ => h.above?_of_child?
    exact h.rooted.not_hangs (h.above?_of_child? hyc) hup
  have upper := hafter.takeWhile hpc fun y => next?_cut h.linked c y
  rw [List.takeWhile_cons_of_pos (by simpa using hpc)] at upper
  refine ⟨lower, upper, fun y hy hyc => ?_⟩
  -- a block in both chains would hang from both, so one of `p` and `c` from the other
  have down {x : String} {l : List String} (hl : Lineage (w.cut c).next? x l) (hy : y ∈ l) :
      Hangs (w.cut c).above? y x := (hl.mem_iff.mp hy).reverse fun _ _ => hk.above?_of_child?
  rcases (down upper hy).total (down lower hyc) with hpc' | hcp
  · exact hc.2 (hangs_of_hangs_cut hpc')
  · exact hpc (hcp.eq_of_root (by rw [above?_cut, if_pos rfl])).symm

/-! ### Putting a block behind another one -/

theorem next?_splice (h : w.Sound) (hp : (w.block? p).isSome) (c y : String) :
    (w.splice p c).next? y = if p = y then some c else (w.cut c).next? y := by
  have hp' : (((w.cut c).release p none).block? p).isSome := by
    rw [(sameCore_release ..).isSome_block?, (sameCore_cut ..).isSome_block?, hp]
  unfold splice next?
  rw [child?_bind hp', child?_release (h.cut c).linked]
  simp only [and_true]
  split <;> rfl

/-- What followed a block is let go. -/
theorem Sound.block?_release_next (h : w.Sound) (p y : String) : (w.release p none).block? y =
    (w.block? y).map fun b => { b with
      next := if y = p then .null else b.next
      parent := if w.child? p none = some y then .null else b.parent
      parentInput := if w.child? p none = some y then .null else b.parentInput } := by
  unfold Workspace.release
  cases hd : w.child? p none with
  | none =>
      cases hy : w.block? y with
      | none => rfl
      | some b =>
          have hnext : (if y = p then .null else b.next) = b.next := by
            split
            · rename_i hyp
              rw [hyp] at hy
              rw [h.next_eq hy, hd]
              rfl
            · rfl
          simp [hnext]
  | some d =>
      rw [block?_cut_next ((h.linked ..).mp hd)]
      simp only [Option.some.injEq, eq_comm]

theorem block?_splice (h : w.Sound) (hpc : p ≠ c) (y : String) : (w.splice p c).block? y =
    (w.block? y).map (Block.spliced p c ((w.cut c).child? p none) none y) := by
  rw [splice, block?_bind_next, (h.cut c).block?_release_next, h.block?_cut]
  cases w.block? y with
  | none => rfl
  | some b =>
      simp only [Option.map_some, Block.spliced]
      by_cases hyc : y = c
      · subst hyc
        simp [Ne.symm hpc, Block.loosen]
      · by_cases hyp : y = p <;> simp [hyc, hyp, hpc, Value.ofText?]

/-! ### What follows from following -/

/-- A block is put behind another one, and what followed that one hangs nowhere. -/
theorem rehung_splice (h : w.Sound) (hpc : p ≠ c) :
    w.Rehung p c ((w.cut c).child? p none) none (w.splice p c) where
  retabled := by
    refine (retabled_cut w c).trans (Retabled.trans ?_ (retabled_bind ..))
    unfold release
    split
    · rfl
    · exact retabled_cut ..
  keys := by
    rw [splice, keys_bind]
    unfold release
    split
    · exact keys_cut w c
    · rw [keys_cut, keys_cut]
  block? := block?_splice h hpc

/-- What followed hangs nowhere at first, and is put behind the last of the blocks that were put. -/
theorem Rehung.bind {d t : String} (h : w.Rehung p c (some d) none w') (hpt : p ≠ t) (hcd : c ≠ d) :
    w.Rehung p c (some d) (some t) (w'.bind t none d) where
  retabled := h.retabled.trans (retabled_bind ..)
  keys := by rw [keys_bind, h.keys]
  block? := fun y => by
    rw [block?_bind_next, h.block?]
    cases w.block? y with
    | none => rfl
    | some b =>
        simp only [Option.map_some, Block.spliced]
        by_cases hyd : y = d
        · subst hyd
          by_cases hyt : y = t
          · subst hyt
            simp [Ne.symm hpt, Ne.symm hcd, Value.ofText?]
          · simp [Ne.symm hcd, hyt, Ne.symm hyt, Value.ofText?]
        · by_cases hyt : y = t
          · subst hyt
            simp [Ne.symm hpt, hyd, Ne.symm hyd, Value.ofText?]
          · simp [hyt, hyd, Ne.symm hyt, Ne.symm hyd]

/-- A block that nothing follows is as it is when nothing is put behind it. -/
theorem Rehung.last (h : w.Sound) (hr : w.Rehung p c none none w') {t : String}
    (ht : w.next? t = none) : w.Rehung p c none (some t) w' where
  retabled := hr.retabled
  keys := hr.keys
  block? := fun y => by
    rw [hr.block?]
    cases hy : w.block? y with
    | none => rfl
    | some b =>
        by_cases hyt : t = y
        · subst hyt
          have hnext : b.next = .null := by
            rw [h.next_eq hy, ← next?, ht]
            rfl
          simp [Block.spliced, Block.lose, hnext, Value.ofText?]
        · simp [Block.spliced, hyt]

theorem Rehung.above?_moved {d : String} (h : w.Rehung p c (some d) none w') (hcd : c ≠ d) :
    w'.above? d = none := by
  rw [above?_eq_none, seat?, h.block?]
  cases w.block? d with
  | none => rfl
  | some b =>
      simp [Block.spliced, Block.seat?, Ne.symm hcd, Value.ofText?]

/-! ### The chains once a block is put behind another one -/

namespace Sunders

variable {d t : String}

/-- What followed is the first block of the rest of the chain. -/
theorem child?_eq (ha : w.Sunders p c cs ds) : (w.cut c).child? p none = ds.head? :=
  ha.upper.up_eq_head?

theorem not_mem (ha : w.Sunders p c cs ds) : p ∉ cs := ha.disjoint p List.mem_cons_self

theorem isSome_moved (ha : w.Sunders p c cs ds) (h : w.Sound) (hd : ds.head? = some d) :
    (w.block? d).isSome := by
  rw [← (sameCore_cut w c).isSome_block?]
  exact (h.cut c).isSome_child (ha.child?_eq.trans hd)

theorem ne_moved (ha : w.Sunders p c cs ds) (hd : ds.head? = some d) : c ≠ d := by
  rintro rfl
  exact ha.disjoint c (List.mem_cons_of_mem _ (List.mem_of_head? hd)) ha.lower.mem_self

/-- The chain that is put is the same once it is put. -/
theorem lower_splice (ha : w.Sunders p c cs ds) (h : w.Sound) (hp : (w.block? p).isSome) :
    Lineage (w.splice p c).next? c cs := ha.lower.congr fun y hy => by
  rw [next?_splice h hp, if_neg fun hpy : p = y => ha.not_mem (hpy ▸ hy)]

/-- So is the chain of what followed. -/
theorem upper_splice (ha : w.Sunders p c cs ds) (h : w.Sound) (hp : (w.block? p).isSome)
    (hd : ds.head? = some d) : Lineage (w.splice p c).next? d ds := by
  have hup := ha.upper
  cases hup with
  | root => cases hd
  | @step _ d' _ hd' k =>
      obtain ⟨m, rfl⟩ := k.exists_eq_cons
      obtain rfl : d' = d := Option.some.inj hd
      refine k.congr fun y hy => ?_
      rw [next?_splice h hp, if_neg]
      rintro rfl
      exact (List.nodup_cons.mp ha.upper.nodup).1 hy

/-- The chain that is put goes on with what followed, where this is put behind its last block. -/
theorem lineage_bind (ha : w.Sunders p c cs ds) (h : w.Sound) (hp : (w.block? p).isSome)
    (ht : cs.getLast? = some t) (htb : (w.block? t).isSome) (hd : ds.head? = some d) :
    Lineage ((w.splice p c).bind t none d).next? p (p :: (cs ++ ds)) := by
  have htcs : t ∈ cs := List.mem_of_getLast? ht
  have hpt : t ≠ p := fun hpt => ha.not_mem (hpt ▸ htcs)
  have hnext (y : String) : ((w.splice p c).bind t none d).next? y =
      if t = y then some d else (w.splice p c).next? y := by
    rw [next?, child?_bind (by rwa [(sameCore_splice w p c).isSome_block?])]
    simp only [and_true]
    rfl
  have hpc : (w.splice p c).next? p = some c := by rw [next?_splice h hp, if_pos rfl]
  refine .step ((hnext p).trans ((if_neg hpt).trans hpc)) ?_
  refine (ha.lower_splice h hp).append ht (fun y _ hyt => ?_) ((hnext t).trans (if_pos rfl))
    ((ha.upper_splice h hp hd).congr fun y hy => ?_)
  · rw [hnext, if_neg (Ne.symm hyt)]
  · rw [hnext, if_neg]
    rintro rfl
    exact ha.disjoint t (List.mem_cons_of_mem _ hy) htcs

/-- What ends the chain once it is put is what ended it before. -/
theorem trails_splice (ha : w.Sunders p c cs ds) (h : w.Sound) (hp : (w.block? p).isSome)
    {t' : String} (ht : cs.getLast? = some t) (ht' : (w.splice p c).Trails c t') : t' = t := by
  obtain ⟨l, hl, hl'⟩ := ht'
  obtain rfl := hl.unique (ha.lower_splice h hp)
  exact Option.some.inj (hl'.symm.trans ht)

end Sunders

/-- The chain that is put has its place between the parts of the other one, or the second of these
hangs nowhere. -/
theorem Follows.spliced (hf : w.Follows p c w') (h : w.Sound) (hc : w.Connects p none c)
    (ha : w.Sunders p c cs ds) (hcs : Lineage w.next? c cs) (hne : w.child? p none ≠ some c) :
    w.Spliced p c cs ds w' := by
  have hp := hc.1.isSome_parent
  have hpc : p ≠ c := fun e => hc.2 (e ▸ .refl)
  have hs' := h.follows hc hf
  have there {y : String} (hy : (w.block? y).isSome) : (w'.block? y).isSome := by
    rw [hf.sameCore.isSome_block?, hy]
  obtain ⟨_, t, _, e, -, -, hstands, cs', hcs', ht⟩ := h.exists_tail hc.1.isSome_child
  obtain rfl := hcs'.unique hcs
  have htype (t' : String) : (w.splice p c).type? t' = w.type? t' := (sameCore_splice w p c).type? t'
  have hrehung := rehung_splice h hpc
  rw [ha.child?_eq] at hrehung
  cases hf with
  | already ho => exact absurd ho hne
  | alone _ hloose =>
      have hjoin : (w.splice p c).Chained p (p :: cs') :=
        hs'.chained (there hp)
          (.step (by rw [next?_splice h hp, if_pos rfl]) (ha.lower_splice h hp))
      cases hnext : e.next with
      | true =>
          -- nothing followed `p`, since it would be put behind `t`
          cases ds with
          | nil =>
              have hend : w.next? t = none := Trails.child?_none ⟨cs', hcs, ht⟩
              refine .joined ht hstands.type hnext ?_ (hrehung.last h hend)
              rwa [List.append_nil]
          | cons d ds =>
              obtain ⟨t', e', ht', he', hn⟩ := hloose d ha.child?_eq
              rw [ha.trails_splice h hp ht ht', htype, hstands.type] at he'
              rw [Option.some.inj he', hn] at hnext
              cases hnext
      | false =>
          refine .parted ht hstands.type hnext hjoin (fun d hd => ?_) hrehung
          rw [hd] at hrehung
          exact ⟨hs'.chained (there (ha.isSome_moved h hd)) (ha.upper_splice h hp hd),
            hrehung.above?_moved (ha.ne_moved hd)⟩
  | @before d t' e' _ hd ht' he hn =>
      obtain rfl := ha.trails_splice h hp ht ht'
      rw [htype, hstands.type] at he
      rw [← Option.some.inj he] at hn
      have hd := ha.child?_eq.symm.trans hd
      have hpt : p ≠ t' := fun hpt => ha.not_mem (hpt ▸ List.mem_of_getLast? ht)
      have htb : (w.block? t').isSome := isSome_of_type? hstands.type
      rw [hd] at hrehung
      refine .joined ht hstands.type hn
        (hs'.chained (there hp) (ha.lineage_bind h hp ht htb hd)) ?_
      rw [hd]
      exact hrehung.bind hpt (ha.ne_moved hd)

/-- **A chain that is put behind a block is spliced in.** -/
theorem Sound.spliced (h : w.Sound) (hc : w.Connects p none c) (hf : w.Follows p c w')
    (hne : w.child? p none ≠ some c) : ∃ cs after, w.Chained c cs ∧ w.Chained p (p :: after) ∧
      w.Spliced p c cs (after.takeWhile (· ≠ c)) w' := by
  obtain ⟨cs, hcs⟩ := h.rooted_next c
  obtain ⟨l, hl⟩ := h.rooted_next p
  obtain ⟨after, rfl⟩ := hl.exists_eq_cons
  exact ⟨cs, after, h.chained hc.1.isSome_child hcs, h.chained hc.1.isSome_parent hl,
    hf.spliced h hc (h.sunders hc hcs hl) hcs hne⟩

end Workspace

/-! ### Calls -/

/-- Where one block may be put behind another one and is not there, the call splices its chain in,
and the audience hears of one change. -/
theorem Act.perform_connectNext {σ : Type} {a : Audience σ} {s : Scene σ} (h : s.workspace.Sound)
    (hm : s.workspace.muted = 0) {p c : String} (hc : s.workspace.Connects p none c)
    (hne : s.workspace.child? p none ≠ some c) :
    ∃ cs after w', s.workspace.Chained c cs ∧ s.workspace.Chained p (p :: after) ∧
      s.workspace.Spliced p c cs (after.takeWhile (· ≠ c)) w' ∧
      perform a (Edit.connectNext (.text p) (.text c)) s =
        a.hear ⟨.move, .text c, s.workspace.dragging,
          [(.text "new_parent", .text p), (.text "new_input", .null)]⟩ { s with workspace := w' } := by
  have hends : Ends (Edit.connectNext (.text p) (.text c)) s.workspace
      (fun ns w' => s.workspace.Follows p c w' ∧ ns = Edit.connected (.text p) .null (.text c))
      fun _ _ => False := by
    refine Edit.ends_connectNext_answer h (fun e hno => hno p c rfl rfl hc) ?_
    intro p' c' ns w' hp hc' _ hf hns
    cases hp
    cases hc'
    rw [if_neg hne] at hns
    exact ⟨hf, hns⟩
  obtain ⟨ns, w', hok, hf, rfl⟩ := hends.exists_ok
  obtain ⟨cs, after, hcs, hafter, hspliced⟩ := h.spliced hc hf hne
  refine ⟨cs, after, w', hcs, hafter, hspliced, ?_⟩
  have hretabled : s.workspace.Retabled w' := by
    cases hspliced with
    | joined _ _ _ _ hr | parted _ _ _ _ _ hr => exact hr.retabled
  have hm' : w'.muted = 0 := hretabled.muted.trans hm
  rw [perform_of_ok hok, Edit.connected, tellAll_single hm', ← hretabled.dragging]
  rfl

namespace History

variable {σ τ : Type} {a : Audience σ} {b : Audience τ} {v : Vocabulary} {g : Workspace}
  {s t : Scene τ}

/-- **Letting a block follow another one loses no block.**  When the call returns, the chain of the
other one is that block, the chain that was put, and what followed it before, or this hangs nowhere
where the chain that was put cannot be followed; every other link and all else that blocks say are
as they were, and the audience heard of one change.  Where the one block followed the other already,
nothing is changed and nothing told. -/
theorem splices (ha : a.Tame) (ho : a.Open) (hv : v.Worded) (hg : History a v g)
    (hs : s.workspace = g) {p c : String}
    (ht : Act.perform b (Edit.connectNext (.text p) (.text c)) s = .ok () t) :
    (g.child? p none = some c → t = s) ∧
      (g.child? p none ≠ some c → ∃ cs after w', g.Chained c cs ∧ g.Chained p (p :: after) ∧
        g.Spliced p c cs (after.takeWhile (· ≠ c)) w' ∧
        b.hear ⟨.move, .text c, g.dragging,
          [(.text "new_parent", .text p), (.text "new_input", .null)]⟩
          { s with workspace := w' } = .ok () t) := by
  subst hs
  have hsound := hg.sound ha hv
  have hends : Ends (Edit.connectNext (.text p) (.text c)) s.workspace
      (fun ns w' => s.workspace.Connects p none c ∧
        (s.workspace.child? p none = some c → ns = [] ∧ w' = s.workspace))
      fun _ _ => True := by
    refine Edit.ends_connectNext_answer hsound (fun _ _ => trivial) ?_
    intro p' c' ns w' hp hc' hc hf hns
    cases hp
    cases hc'
    refine ⟨hc, fun hpc => ?_⟩
    rw [if_pos hpc] at hns
    cases hf with
    | already => exact ⟨hns, rfl⟩
    | alone hne | before hne => exact absurd hpc hne
  cases hedit : Edit.connectNext (.text p) (.text c) s.workspace with
  | error e w' => simp [Act.perform, Act.edit, Bind.bind, EStateM.bind, hedit] at ht
  | ok ns w' =>
      rw [Ends.of_ok hedit] at hends
      obtain ⟨hc, halready⟩ := hends
      constructor
      · intro hpc
        obtain ⟨rfl, rfl⟩ := halready hpc
        rw [Act.perform_of_ok hedit] at ht
        cases ht
        rfl
      · intro hne
        obtain ⟨cs, after, w'', hcs, hafter, hspliced, hperform⟩ :=
          Act.perform_connectNext (a := b) hsound (hg.unmuted ho) hc hne
        exact ⟨cs, after, w'', hcs, hafter, hspliced, hperform.symm.trans ht⟩

/-- There is a workspace where one block follows another one, and a third hangs nowhere. -/
theorem exists_row : ∃ w, History .journal .stock w ∧ w.Listed .stock 0
    [(.text "a", { Severing.waiter "a" with next := .text "b" }),
      (.text "b", { Severing.waiter "b" with parent := .text "a" }),
      (.text "c", Severing.waiter "c")] := by
  obtain ⟨w, hw, h⟩ := (History.new 0).exists_waiting (Workspace.listed_new rfl 0) (x := "a")
    (by decide) (by decide) rfl _
  obtain ⟨w, hw, h⟩ := hw.exists_waiting h (x := "b") (by decide) (by decide) rfl _
  obtain ⟨w, hw, h⟩ := hw.exists_waiting h (x := "c") (by decide) (by decide) rfl _
  have h : w.Listed .stock 0 [(.text "a", Severing.waiter "a"), (.text "b", Severing.waiter "b"),
    (.text "c", Severing.waiter "c")] := h
  have hbelow : w.hangsFrom (.text "b") (.text "a") = .ok false :=
    h.hangsFrom_loose (b := Severing.waiter "a") rfl rfl rfl (by decide)
  exact hw.exists_command (.connectNext (.text "a") (.text "b"))
    (h.ends_connectNext_free (p := Severing.waiter "a") (c := Severing.waiter "b") rfl rfl
      (Severing.declarationOf_waiter h rfl) rfl (Severing.declarationOf_waiter h rfl) rfl hbelow rfl
      rfl rfl fun _ _ hu => hu)

/-- A block is put between two others. -/
theorem splices_between : ∃ (g : Workspace) (t : Scene (List Change)), History .journal .stock g ∧
    g.Chained "a" ["a", "b"] ∧
    Act.perform .journal (Edit.connectNext (.text "a") (.text "c"))
      { workspace := g, audience := [] } = .ok () t ∧
    t.workspace.Chained "a" ["a", "c", "b"] ∧ t.audience.length = 1 := by
  obtain ⟨g, hg, h⟩ := exists_row
  have hsound := hg.sound Audience.tame_journal Vocabulary.worded_stock
  let s : Scene (List Change) := { workspace := g, audience := [] }
  have hab : g.Chained "a" ["a", "b"] := by
    refine ⟨[(.text "a", { Severing.waiter "a" with next := .text "b" }),
      (.text "b", { Severing.waiter "b" with parent := .text "a" })], ?_, rfl⟩
    rw [Workspace.chain, h.size_eq]
    simp only [List.length_cons, List.length_nil, Workspace.chainFrom, h.find?_eq]
    rfl
  have hc : g.Chained "c" ["c"] := by
    refine ⟨[(.text "c", Severing.waiter "c")], ?_, rfl⟩
    rw [Workspace.chain, h.size_eq]
    simp only [List.length_cons, List.length_nil, Workspace.chainFrom, h.find?_eq]
    rfl
  have htype {x : String} {b : Block} (hx : g.block? x = some b) (hb : b.type = .text "wait") :
      g.type? x = some Vocabulary.wait :=
    Workspace.type?_eq_some.mpr ⟨b, hx, Severing.declarationOf_waiter h hb⟩
  have hac : g.type? "a" = some Vocabulary.wait ∧ g.type? "c" = some Vocabulary.wait :=
    ⟨htype ((h.find?_eq _).trans rfl) rfl, htype ((h.find?_eq _).trans rfl) rfl⟩
  have hconnects : g.Connects "a" none "c" := by
    refine ⟨⟨_, _, hac.1, hac.2, rfl, rfl⟩, fun hangs => ?_⟩
    have htop : g.above? "a" = none :=
      (hsound.isTop_iff (b := { Severing.waiter "a" with next := .text "b" })
        ((h.find?_eq _).trans rfl)).mp rfl
    exact absurd (hangs.eq_of_root htop) (by decide)
  have hnext : g.child? "a" none ≠ some "c" := by
    rw [Workspace.child?_eq_some.mpr ⟨_, (h.find?_eq _).trans rfl, rfl⟩]
    decide
  obtain ⟨-, -, _, -, -, -, hperform⟩ :=
    Act.perform_connectNext (a := .journal) (s := s) hsound (hg.unmuted Audience.open_journal)
      hconnects hnext
  refine ⟨g, _, hg, hab, hperform, ?_, rfl⟩
  obtain ⟨-, hsplices⟩ := splices Audience.tame_journal Audience.open_journal
    Vocabulary.worded_stock hg (s := s) rfl hperform
  obtain ⟨cs, after, w', hcs, hafter, hspliced, hheard⟩ := hsplices hnext
  cases hheard
  obtain rfl := hcs.unique hc
  obtain rfl : after = ["b"] := List.tail_eq_of_cons_eq (hafter.unique hab)
  cases hspliced with
  | joined _ _ _ hchained => exact hchained
  | @parted t e ht he hn =>
      obtain rfl : "c" = t := Option.some.inj ht
      obtain rfl := Option.some.inj (hac.2.symm.trans he)
      exact absurd hn (by decide)

end History

namespace Loading

/-- A block in a socket without a name is not taken out of it when it is let follow the block that it
is in. -/
theorem not_always_spliced : ∃ s u : Scene (List Change),
    History .journal namelessVocabulary s.workspace ∧
      Act.perform .journal (Edit.connectNext (.text "p") (.text "c")) s = .ok () u ∧
      s.workspace.child? "p" none ≠ some "c" ∧
      (∃ b, u.workspace.block? "p" = some b ∧ (.null, .text "c") ∈ b.inputs) ∧
      ¬ ∃ cs after w', s.workspace.Chained "c" cs ∧ s.workspace.Chained "p" ("p" :: after) ∧
        s.workspace.Spliced "p" "c" cs (after.takeWhile (· ≠ "c")) w' ∧
        Audience.journal.hear ⟨.move, .text "c", s.workspace.dragging,
          [(.text "new_parent", .text "p"), (.text "new_input", .null)]⟩
          { s with workspace := w' } = .ok () u := by
  obtain ⟨g, hg, h⟩ := exists_plugged
  let s : Scene (List Change) := { workspace := g, audience := [] }
  have hends : Ends (Edit.connectNext (.text "p") (.text "c")) g
      (fun ns u => ns = Edit.connected (.text "p") .null (.text "c") ∧
        u.Listed namelessVocabulary 0 doubled) fun _ _ => False :=
    ends_double h fun _ hu => ⟨rfl, hu⟩
  obtain ⟨_, w, hok, rfl, hw⟩ := hends.exists_ok
  have hperform := Act.perform_of_ok (a := .journal) (s := s) hok
  rw [Edit.connected, Act.tellAll_single hw.muted] at hperform
  have hp : w.block? "p" = some { plugged with next := .text "c" } := (hw.find?_eq _).trans rfl
  have hplugged : g.block? "p" = some plugged := (h.find?_eq _).trans rfl
  refine ⟨s, _, hg, hperform, ?_, ⟨_, hp, List.mem_singleton_self _⟩, ?_⟩
  · rw [show s.workspace.child? "p" none = none by rw [Workspace.child?, hplugged]; rfl]
    decide
  · rintro ⟨cs, after, w', -, -, hspliced, hheard⟩
    obtain rfl : w = w' := (Audience.records_journal _ _ _ hheard).1
    obtain ⟨moved, onto, hr⟩ : ∃ moved onto, g.Rehung "p" "c" moved onto w := by
      cases hspliced with
      | joined _ _ _ _ hr | parted _ _ _ _ _ hr => exact ⟨_, _, hr⟩
    have hlost := hr.block? "p"
    rw [hp, hplugged, Option.map_some] at hlost
    have hinputs : plugged.inputs = [] := congrArg Block.inputs (Option.some.inj hlost)
    exact absurd hinputs (by decide)

end Loading

end Blockwork
