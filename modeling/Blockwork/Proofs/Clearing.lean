import Blockwork.Proofs.Covering
import Blockwork.Proofs.Loading
import Blockwork.Proofs.Mirroring

/-!
# Clearing a workspace

The blocks at the top share out the workspace: every block is below just one of them
(`Workspace.Parted`).  So emptying a workspace is one deletion for each block at the top, and what
the audience is told of these deletions are the ids of all blocks, each once (`History.clears`).

A deletion takes a whole branch away, and the other branches stay as they are
(`Workspace.Heads.discard`); that is what the induction over the deletions carries along.
-/

namespace Blockwork

open Forest (Rooted Hangs Lineage IsBranch)

namespace Workspace

variable {w : Workspace} {x y : String} {xs : List String} {b t : Block} {bs : List Block}

/-! ### What is below a block -/

/-- A walk down finds blocks of the workspace only. -/
theorem mem_of_descendantsFrom {n : Nat} {k : Key} (h : w.descendantsFrom n k = .ok bs)
    (hb : b ∈ bs) : b ∈ w.blocks := by
  induction n generalizing k bs with
  | zero =>
      cases h
      cases hb
  | succ n ih =>
      unfold descendantsFrom at h
      cases hk : w.find? k with
      | none =>
          rw [hk] at h
          cases h
          cases hb
      | some c =>
          rw [hk] at h
          obtain ⟨bss, hbss, h⟩ := exists_of_bind_ok h
          cases h
          rcases List.mem_cons.mp hb with rfl | hb
          · exact mem_blocks hk
          · obtain ⟨below, hbelow, hb⟩ := List.mem_flatten.mp hb
            obtain ⟨t, -, ht⟩ := exists_of_mem_forall₂ (forall₂_of_mapM hbss) hbelow
            obtain ⟨j, -, hj⟩ := exists_of_bind_ok ht
            exact ih hj hb

/-- The blocks below a block, step by step. -/
theorem Sound.descendantsFrom_succ (h : w.Sound) (hb : w.block? x = some b) (n : Nat) :
    w.descendantsFrom (n + 1) (.text x) =
      (fun below => b :: below.flatten) <$> b.children.mapM fun c => w.descendantsFrom n (.text c) := by
  have htargets := (h.shaped x b hb).targets_eq (h.next_ne_empty hb)
  rw [block?] at hb
  rw [descendantsFrom, hb]
  simp only [htargets, List.mapM_map]
  rfl

/-- The number of steps that a walk down is given does not matter, as long as there are enough. -/
theorem Sound.descendantsFrom_stable (h : w.Sound) {l : List String} (hl : Lineage w.above? x l)
    (hx : (w.block? x).isSome) {m n : Nat} (hm : w.size < l.length + m) (hn : w.size < l.length + n) :
    w.descendantsFrom m (.text x) = w.descendantsFrom n (.text x) := by
  have hlength := h.length_lineage_le hl hx
  induction m generalizing n x l with
  | zero => omega
  | succ m ih =>
      cases n with
      | zero => omega
      | succ n =>
          obtain ⟨b, hb⟩ := Option.isSome_iff_exists.mp hx
          rw [h.descendantsFrom_succ hb, h.descendantsFrom_succ hb]
          congr 1
          refine mapM_eq_of_forall₂ (List.forall₂_same.mpr fun c hc => ?_)
          obtain ⟨s, hs⟩ := (h.shaped x b hb).mem_children.mp hc
          have hcx : w.child? x s = some c := child?_eq_some.mpr ⟨b, hb, hs⟩
          have hlc := Lineage.step (h.above?_of_child? hcx) hl
          have hc := h.isSome_child hcx
          refine ih hlc hc ?_ ?_ (h.length_lineage_le hlc hc)
          · simp only [List.length_cons]
            omega
          · simp only [List.length_cons]
            omega

/-- What is below a block stays there when blocks are left out that do not hang from it. -/
theorem Sound.descendantsFrom_discard (h : w.Sound) (hd : (w.discard xs).Sound)
    (hx : ∀ y, Hangs w.above? y x → y ∉ xs) (n : Nat) :
    (w.discard xs).descendantsFrom n (.text x) = w.descendantsFrom n (.text x) := by
  induction n generalizing x with
  | zero => rfl
  | succ n ih =>
      have hsame : (w.discard xs).block? x = w.block? x := by
        rw [block?_discard, if_neg (hx x .refl)]
      cases hb : w.block? x with
      | none =>
          have hb' := hsame.trans hb
          rw [block?] at hb hb'
          rw [descendantsFrom, descendantsFrom, hb, hb']
      | some b =>
          rw [h.descendantsFrom_succ hb, hd.descendantsFrom_succ (hsame.trans hb)]
          congr 1
          refine mapM_eq_of_forall₂ (List.forall₂_same.mpr fun c hc => ih fun y hy => ?_)
          obtain ⟨s, hs⟩ := (h.shaped x b hb).mem_children.mp hc
          exact hx y (hy.tail (h.above?_of_child? (child?_eq_some.mpr ⟨b, hb, hs⟩)))

theorem size_discard_le (w : Workspace) (xs : List String) : (w.discard xs).size ≤ w.size := by
  induction xs generalizing w with
  | nil => exact Nat.le_refl _
  | cons x xs ih =>
      refine (ih (w.drop x)).trans ?_
      rw [size, size, Table.size_eq, Table.size_eq, drop, Table.entries_erase]
      exact List.length_filter_le ..

theorem Sound.descendants_discard (h : w.Sound) (hd : (w.discard xs).Sound)
    (hx : ∀ y, Hangs w.above? y x → y ∉ xs) (hb : w.block? x = some b) :
    (w.discard xs).descendants (.text x) = w.descendants (.text x) := by
  have hthere : ((w.discard xs).block? x).isSome := by
    rw [block?_discard, if_neg (hx x .refl), hb]
    rfl
  obtain ⟨l, hl⟩ := hd.rooted x
  have hpos := hl.length_pos
  have hsize := w.size_discard_le xs
  rw [descendants_eq, descendants_eq, ← h.descendantsFrom_discard hd hx]
  exact hd.descendantsFrom_stable hl hthere (by omega) (by omega)

/-! ### Shares -/

/-- Whether some blocks are those at the top, and lists of blocks what is below each of them:
together all blocks, each once. -/
structure Parted (w : Workspace) (heads : List Block) (below : List (List Block)) : Prop where
  tops : w.tops = .ok heads
  walks : heads.mapM (fun t => do w.descendants (← t.id.toKey)) = .ok below
  all : below.flatten.Perm w.blocks
  once : (w.blocks.map (·.id)).Nodup

/-- Whether a block hangs nowhere, and blocks are those below it. -/
structure Heads (w : Workspace) (x : String) (t : Block) (bs : List Block) : Prop where
  there : w.block? x = some t
  top : w.above? x = none
  below : w.descendants (.text x) = .ok bs

/-- Blocks whose ids are those of all blocks, each once, are all blocks. -/
theorem Sound.perm_blocks (h : w.Sound) (hbs : ∀ b ∈ bs, b ∈ w.blocks)
    (hids : bs.map (·.id) = xs.map .text) (hnd : xs.Nodup)
    (hall : ∀ y, (w.block? y).isSome → y ∈ xs) : bs.Perm w.blocks := by
  have hbs' : bs.Nodup := by
    refine List.Nodup.of_map (·.id) ?_
    rw [hids]
    exact hnd.map fun _ _ => Value.text.inj
  refine (List.perm_ext_iff_of_nodup hbs' h.nodup_ids.of_map).mpr fun b => ⟨hbs b, fun hb => ?_⟩
  obtain ⟨y, hy, hthere⟩ := h.mem_ids.mp (List.mem_map_of_mem (f := (·.id)) hb)
  have hmem : Value.text y ∈ bs.map (·.id) := by
    rw [hids]
    exact List.mem_map_of_mem (hall y hthere)
  obtain ⟨c, hc, hid⟩ := List.mem_map.mp hmem
  have hbc : b = c := List.inj_on_of_nodup_map h.nodup_ids hb (hbs c hc) (hy.symm.trans hid.symm)
  rwa [hbc]

/-- The blocks at the top share out the blocks of a sound workspace. -/
theorem Sound.exists_parted (h : w.Sound) (hp : w.Placed) :
    ∃ heads below, w.Parted heads below ∧
      List.Forall₂ (fun t bs => ∃ x, w.Heads x t bs) heads below ∧
      (heads.map (·.id)).Nodup ∧ w.Covered (heads.map (·.id)) := by
  obtain ⟨heads, htops, hperm, -⟩ := h.exists_tops hp
  obtain ⟨names, hnames, hnd, hroots, hall⟩ := h.exists_topmost hperm
  have hids : heads.map (·.id) = names.map .text :=
    map_eq_of_forall₂ hnames fun x b hb => h.id_eq hb.1
  have hthere (x : String) (hx : x ∈ names) : (w.block? x).isSome := by
    obtain ⟨t, -, ht⟩ := exists_of_mem_forall₂ hnames.flip hx
    rw [ht.1]
    rfl
  obtain ⟨below, hbelow, hrows⟩ := exists_mapM (f := fun x => w.descendants (.text x))
    (P := fun x bs => w.descendants (.text x) = .ok bs ∧ w.IsBelow x bs)
    fun x hx => by
      obtain ⟨bs, hbs, hx⟩ := h.exists_descendants (hthere x hx)
      exact ⟨bs, hbs, hbs, hx⟩
  obtain ⟨xss, hxss, hbranches⟩ :=
    exists_rows (List.forall₂_map_right_iff (f := List.map (·.id)).mpr (hrows.imp fun _ _ h => h.2))
  -- nothing hangs from two blocks that hang nowhere, so the branches have no name in common
  obtain ⟨hflat, hmem⟩ := IsBranch.flatten hbranches (Forest.pairwise_of_roots hnd hroots)
  have hfound (b : Block) (hb : b ∈ below.flatten) : b ∈ w.blocks := by
    obtain ⟨bs, hbs, hb⟩ := List.mem_flatten.mp hb
    obtain ⟨x, -, hx, -⟩ := exists_of_mem_forall₂ hrows hbs
    exact mem_of_descendantsFrom ((descendants_eq w _).symm.trans hx) hb
  have hflatIds : below.flatten.map (·.id) = xss.flatten.map .text := by
    rw [List.map_flatten, hxss, List.map_flatten]
  refine ⟨heads, below, ⟨htops, ?_, ?_, h.nodup_ids⟩, ?_, ?_, fun y hy => ?_⟩
  · rw [← hbelow]
    refine mapM_eq_of_forall₂ (hnames.flip.imp fun t x ht => ?_)
    rw [h.id_eq ht.1]
    rfl
  · exact h.perm_blocks hfound hflatIds hflat fun y hy => (hmem y).mpr (hall y hy)
  · have htops : List.Forall₂ (fun x t => w.above? x = none ∧ w.block? x = some t) names heads :=
      hnames.imp fun _ _ ht => ⟨(h.isTop_iff ht.1).mp ht.2, ht.1⟩
    refine (forall₂_of_common htops hrows).imp ?_
    rintro t bs ⟨x, ⟨hroot, hx⟩, hbs, -⟩
    exact ⟨x, hx, hroot, hbs⟩
  · rw [hids]
    exact hnd.map fun _ _ => Value.text.inj
  · obtain ⟨x, hx, hyx⟩ := hall y hy
    rw [hids]
    exact ⟨x, List.mem_map_of_mem hx, hyx⟩

/-- A branch below a block that hangs nowhere stays when another one is left out. -/
theorem Heads.discard (h : w.Sound) (hd : (w.discard xs).Sound) (hxs : w.Branch y xs)
    (hy : w.above? y = none) (ht : w.Heads x t bs) (hxy : x ≠ y) : (w.discard xs).Heads x t bs := by
  have hout (z : String) (hz : Hangs w.above? z x) : z ∉ xs := by
    intro hm
    rcases hz.total ((hxs.2 z).mp hm) with k | k
    · exact hxy (k.eq_of_root ht.top)
    · exact hxy (k.eq_of_root hy).symm
  have hx := hout x .refl
  refine ⟨?_, ?_, ?_⟩
  · rw [block?_discard, if_neg hx, ht.there]
  · rw [above?_discard, if_neg hx, ht.top]
  · rw [h.descendants_discard hd hout ht.there, ht.below]

theorem dragging_discard (w : Workspace) (xs : List String) :
    (w.discard xs).dragging = w.dragging := by
  induction xs generalizing w with
  | nil => rfl
  | cons x xs ih => exact ih (w.drop x)

/-- What is told when a block that hangs nowhere is deleted with the blocks below it. -/
def deletion (w : Workspace) (t : Block) (bs : List Block) : Change :=
  { kind := .delete, block := t.id, duringDrag := w.dragging
    data := [(.text "ids", .list (bs.map (·.id)))] }

theorem deletion_discard (w : Workspace) (xs : List String) :
    (w.discard xs).deletion = w.deletion := by
  funext t bs
  rw [deletion, deletion, dragging_discard]

end Workspace

/-! ### Deletions -/

/-- A block that hangs nowhere is deleted with all that is below it. -/
theorem Edit.ends_delete_head {w : Workspace} {x : String} {t : Block} {bs : List Block}
    (h : w.Sound) (ht : w.Heads x t bs) {good : List Notice → Workspace → Prop}
    {bad : Error → Workspace → Prop}
    (hg : ∀ xs, w.Branch x xs →
      good [notice .delete (.text x) [("ids", .list (bs.map (·.id)))]] (w.discard xs)) :
    Ends (delete (.text x) false) w good bad := by
  obtain ⟨bs', hbs', hbelow⟩ := h.exists_descendants (x := x) (by rw [ht.there]; rfl)
  obtain rfl := Except.ok.inj (hbs'.symm.trans ht.below)
  have hcut := Workspace.cut_of_seat?_none (Workspace.above?_eq_none.mp ht.top)
  unfold delete
  refine Ends.bind (ends_require (fun b hb => ?_) fun hn => nomatch hn.symm.trans ht.there)
  dsimp only
  rw [if_neg (by rw [Bool.false_and]; exact Bool.false_ne_true)]
  refine Ends.bind (ends_unplug h ht.there ?_)
  rw [hcut]
  refine Ends.bind (Ends.get (Ends.bind (ends_ofExcept_ok hbs' ?_)))
  refine Ends.bind (ends_removeBranch h (by rw [ht.there]; rfl) hbelow fun xs _ hxs => ?_)
  rw [if_neg (by rw [Bool.false_and]; exact Bool.false_ne_true)]
  exact Ends.pure (hg xs hxs)

section

variable {σ : Type}

/-- Whether an audience takes in what it is told and leaves the workspace as it is, unless it fails;
`log` is what it has taken in. -/
def Audience.Records (a : Audience σ) (log : σ → List Change) : Prop :=
  ∀ c s t, a.hear c s = .ok () t →
    t.workspace = s.workspace ∧ log t.audience = log s.audience ++ [c]

/-- Whether an audience fails at something with an error. -/
def Audience.Fails (a : Audience σ) (e : Error) : Prop := ∃ c s t, a.hear c s = .error e t

theorem Audience.records_journal : Audience.journal.Records id := by
  intro c s t h
  cases h
  exact ⟨rfl, rfl⟩

theorem Audience.not_fails_journal (e : Error) : ¬ Audience.journal.Fails e := by
  rintro ⟨c, s, t, h⟩
  cases h

namespace Act

variable {a : Audience σ} {log : σ → List Change} {s : Scene σ} {good : Unit → Scene σ → Prop}

/-- An edit that goes through is told of in the workspace that it leaves. -/
theorem perform_of_ok {e : Edit (List Notice)} {ns : List Notice} {w : Workspace}
    (he : e s.workspace = .ok ns w) : perform a e s = tellAll a ns { s with workspace := w } := by
  simp [perform, edit, Bind.bind, EStateM.bind, he]

/-- One notice is one change that the audience hears. -/
theorem tellAll_single (hm : s.workspace.muted = 0) (n : Notice) :
    tellAll a [n] s = a.hear (changeOf s.workspace n) s := by
  unfold tellAll tell
  cases hear : a.hear (changeOf s.workspace n) s <;>
    simp [tellAll, Bind.bind, EStateM.bind, Pure.pure, EStateM.pure, get, getThe, MonadStateOf.get,
      EStateM.get, hm, hear]

/-- What is told of one notice is taken in. -/
theorem ends_tellAll_single (ha : a.Records log) (hm : s.workspace.muted = 0) {n : Notice}
    (hg : ∀ u : Scene σ, u.workspace = s.workspace →
      log u.audience = log s.audience ++ [changeOf s.workspace n] → good () u) :
    Ends (tellAll a [n]) s good fun e _ => a.Fails e := by
  refine Ends.bind (Ends.bind (Ends.get ?_))
  dsimp only
  rw [if_pos hm]
  refine Ends.bind ((Ends.self (a.hear (changeOf s.workspace n)) s).mono (fun _ u hu => ?_) fun e u hu => ?_)
  · obtain ⟨hw, hl⟩ := ha _ _ _ hu
    exact Ends.pure (Ends.pure (hg u hw hl))
  · exact ⟨_, _, _, hu⟩

/-- One deletion of a block at the top. -/
theorem ends_perform_head (ha : a.Records log) (h : s.workspace.Sound) (hm : s.workspace.muted = 0)
    {x : String} {t : Block} {bs : List Block} (ht : s.workspace.Heads x t bs)
    (hg : ∀ xs (u : Scene σ), s.workspace.Branch x xs → u.workspace = s.workspace.discard xs →
      log u.audience = log s.audience ++ [s.workspace.deletion t bs] → good () u) :
    Ends (perform a (Edit.delete (.text x) false)) s good fun e _ => a.Fails e := by
  refine Ends.bind (ends_edit (Edit.ends_delete_head h ht fun xs hxs => ?_))
  have hmuted : (s.workspace.discard xs).muted = 0 := (s.workspace.muted_discard xs).trans hm
  refine ends_tellAll_single ha hmuted fun u hu hl => hg xs u hxs hu ?_
  rw [hl, Workspace.deletion, h.id_eq ht.there, ← s.workspace.dragging_discard xs]
  rfl

/-- A block that is there is deleted before the others. -/
theorem ends_deleteAll_cons {x : String} {t : Block} {ids : List Value}
    {bad : Error → Scene σ → Prop} (ht : s.workspace.block? x = some t)
    (h : Ends (perform a (Edit.delete (.text x) false)) s
      (fun _ u => Ends (deleteAll a ids) u good bad) bad) :
    Ends (deleteAll a (.text x :: ids)) s good bad := by
  have hthere : s.workspace.contains (.text x) = true := by
    change (s.workspace.block? x).isSome = true
    rw [ht]
    rfl
  refine Ends.bind (ends_ofExcept_ok rfl (Ends.bind (Ends.get ?_)))
  dsimp only
  rw [if_pos hthere]
  exact Ends.bind h

/-- Deleting the blocks at the top one after the other leaves no block, and each deletion is told
of. -/
theorem ends_deleteAll_heads (ha : a.Records log) {heads : List Block} {below : List (List Block)}
    (h : s.workspace.Sound) (hm : s.workspace.muted = 0)
    (hheads : List.Forall₂ (fun t bs => ∃ x, s.workspace.Heads x t bs) heads below)
    (hnd : (heads.map (·.id)).Nodup)
    (hall : s.workspace.Covered (heads.map (·.id))) :
    Ends (deleteAll a (heads.map (·.id))) s (fun _ u => (∀ k, u.workspace.find? k = none) ∧
      log u.audience = log s.audience ++ List.zipWith s.workspace.deletion heads below)
      fun e _ => a.Fails e := by
  induction heads generalizing s below with
  | nil =>
      cases hheads
      exact Ends.pure ⟨hall.eq_none h, (List.append_nil _).symm⟩
  | cons t heads ih =>
      obtain ⟨bs, below, ⟨x, ht⟩, hrest, rfl⟩ := List.forall₂_cons_left_iff.mp hheads
      obtain ⟨hnew, hnd⟩ := List.nodup_cons.mp hnd
      have hid := h.id_eq ht.there
      rw [List.map_cons, hid] at hall ⊢
      refine ends_deleteAll_cons ht.there (ends_perform_head ha h hm ht fun xs u hxs hu hl => ?_)
      have hd := h.discard_branch ht.top hxs
      -- what is told later is about the same blocks, though the workspace has fewer by then
      rw [List.zipWith_cons_cons, List.append_cons, ← hl, ← s.workspace.deletion_discard xs, ← hu]
      rw [← hu] at hd
      refine ih hd ?_ ?_ hnd (hu ▸ hall.discard hxs)
      · rw [hu, s.workspace.muted_discard, hm]
      · have hother (t' : Block) (ht' : t' ∈ heads) : t'.id ≠ t.id := fun he =>
          hnew (List.mem_map.mpr ⟨t', ht', he⟩)
        refine ((List.forall₂_and_left _ _).mpr ⟨hother, hrest⟩).imp ?_
        rintro t' bs' ⟨hne, x', ht'⟩
        refine ⟨x', hu ▸ ht'.discard h (hu ▸ hd) hxs ht.top fun hxx => hne ?_⟩
        rw [h.id_eq ht'.there, hid, hxx]

end Act

/-! ### Histories -/

namespace History

variable {a : Audience σ} {v : Vocabulary} {g : Workspace}

/-- **The blocks at the top share out the workspace, and emptying it tells of each of them.**  The
blocks below the blocks at the top are all blocks, each once.  An audience that leaves the workspace
alone takes in one deletion for each block at the top, with the ids of the blocks below it, and then
no block is left, unless the audience fails. -/
theorem clears (ha : a.Tame) (ho : a.Open) (hv : v.Worded) (hg : History a v g) {τ : Type}
    {b : Audience τ} {log : τ → List Change} (hb : b.Records log) {s : Scene τ}
    (hs : s.workspace = g) :
    ∃ heads below, g.Parted heads below ∧
      ((∃ t, Act.clear b s = .ok () t ∧ (∀ k, t.workspace.find? k = none) ∧
          log t.audience = log s.audience ++ List.zipWith g.deletion heads below) ∨
        ∃ e t, Act.clear b s = .error e t ∧ b.Fails e) := by
  subst hs
  obtain ⟨heads, below, hparted, hheads, hnd, hall⟩ :=
    (hg.sound ha hv).exists_parted (hg.placed ha hv)
  refine ⟨heads, below, hparted, ?_⟩
  have hclear : Ends (Act.clear b) s (fun _ t => (∀ k, t.workspace.find? k = none) ∧
      log t.audience = log s.audience ++ List.zipWith s.workspace.deletion heads below)
      fun e _ => b.Fails e :=
    Ends.bind (Ends.get (Ends.bind (Act.ends_ofExcept_ok hparted.tops
      (Act.ends_deleteAll_heads hb (hg.sound ha hv) (hg.unmuted ho) hheads hnd hall))))
  cases hresult : Act.clear b s with
  | ok _ t =>
      rw [Ends.of_ok hresult] at hclear
      exact .inl ⟨t, rfl, hclear⟩
  | error e t =>
      rw [Ends.of_error hresult] at hclear
      exact .inr ⟨e, t, rfl, hclear⟩

/-- One deletion is told of when a workspace with one block is emptied. -/
theorem clears_word : ∃ (g : Workspace) (b : Block) (t : Scene (List Change)),
    History .journal .stock g ∧ g.blocks = [b] ∧ b.id = .text "word" ∧
      Act.clear .journal { workspace := g, audience := [] } = .ok () t ∧
      (∀ k, t.workspace.find? k = none) ∧ t.audience = [g.deletion b [b]] := by
  obtain ⟨g, hg, -, hlone⟩ := exists_text (x := "word") (by decide) (by decide)
  let s : Scene (List Change) := { workspace := g, audience := [] }
  have hblocks := congrArg (List.map Prod.snd) hlone.entries
  change g.blocks = [_] at hblocks
  obtain ⟨heads, below, hparted, hclear⟩ := clears Audience.tame_journal Audience.open_journal
    Vocabulary.worded_stock hg Audience.records_journal (s := s) rfl
  obtain rfl := Except.ok.inj (hparted.tops.symm.trans (hlone.tops rfl))
  rcases hclear with ⟨t, ht, hnone, hlog⟩ | ⟨e, t, -, hfails⟩
  · refine ⟨g, _, t, hg, hblocks, hlone.id, ht, hnone, hlog.trans ?_⟩
    obtain ⟨bs, _, -, hrest, rfl⟩ := List.forall₂_cons_left_iff.mp (forall₂_of_mapM hparted.walks)
    cases hrest
    have hall := hparted.all
    rw [hblocks, List.flatten_cons, List.flatten_nil, List.append_nil] at hall
    rw [hall.eq_singleton]
    rfl
  · exact absurd hfails (Audience.not_fails_journal e)

end History

end

/-! ### What is not shared out -/

namespace Loading

open Workspace (Listed)

variable {w : Workspace} {muted : Nat}

/-- The blocks of a workspace where one is below another one twice. -/
def doubled : List (Key × Block) :=
  [(.text "p", { plugged with next := .text "c" }), (.text "c", hung "c")]

/-- A block that is in a socket without a name is taken for one that follows the block it is in, and
is let follow it again without being taken out. -/
theorem ends_double (h : w.Listed namelessVocabulary muted
      [(.text "p", plugged), (.text "c", hung "c")])
    {good : List Notice → Workspace → Prop} {bad : Error → Workspace → Prop}
    (hg : ∀ u : Workspace, u.Listed namelessVocabulary muted doubled →
      good (Edit.connected (.text "p") .null (.text "c")) u) :
    Ends (Edit.connectNext (.text "p") (.text "c")) w good bad := by
  have hangs : w.hangsFrom (.text "c") (.text "p") = .ok false :=
    h.hangsFrom_loose (b := plugged) rfl rfl rfl (by decide)
  unfold Edit.connectNext
  refine Ends.bind (h.ends_require rfl (Ends.bind (h.ends_require rfl ?_)))
  refine Ends.bind (Edit.ends_declarationOf_ok (declarationOf_blank h rfl) ?_)
  refine Edit.ends_guard (fun hv => absurd hv (by decide)) fun _ => ?_
  refine Ends.bind (Edit.ends_declarationOf_ok (declarationOf_blank h rfl) ?_)
  refine Edit.ends_guard (fun hv => absurd hv (by decide)) fun _ => ?_
  refine Ends.bind (Ends.get (Ends.bind (Edit.ends_ofExcept_ok hangs ?_)))
  refine Edit.ends_guard (fun hv => absurd hv (by decide)) fun _ => ?_
  rw [if_neg (by decide)]
  refine Ends.bind (h.ends_unplug_behind rfl (by decide) rfl rfl rfl rfl fun w h _ => ?_)
  refine Ends.bind (Edit.ends_deref ((h.find?_eq _).trans rfl) ?_)
  dsimp only
  rw [if_neg (by decide)]
  refine Ends.bind (h.ends_update rfl fun w h _ => Ends.bind (h.ends_update rfl fun w h _ => ?_))
  rw [if_neg (by decide)]
  exact Ends.pure (hg w h)

/-- There is a workspace where a block is in a socket without a name. -/
theorem exists_plugged : ∃ w, History .journal namelessVocabulary w ∧
    w.Listed namelessVocabulary 0 [(.text "p", plugged), (.text "c", hung "c")] := by
  obtain ⟨w, hw, h⟩ := exists_blank (.new 0) (Workspace.listed_new rfl 0) (x := "p") (by decide)
    (by decide) rfl
  obtain ⟨w, hw, h⟩ := exists_blank hw h (x := "c") (by decide) (by decide) rfl
  exact hw.exists_command (.connectValue (.text "p") .null (.text "c")) (ends_plug h fun _ hu => hu)

/-- There is a workspace where a block is below another one twice. -/
theorem exists_doubled : ∃ w, History .journal namelessVocabulary w ∧
    w.Listed namelessVocabulary 0 doubled := by
  obtain ⟨w, hw, h⟩ := exists_plugged
  exact hw.exists_command (.connectNext (.text "p") (.text "c")) (ends_double h fun _ hu => hu)

/-- There is one where no drag is going on, besides. -/
theorem exists_doubled_still : ∃ w, History .journal namelessVocabulary w ∧
    w.Listed namelessVocabulary 0 doubled ∧ w.dragging = false := by
  obtain ⟨w, hw, h⟩ := exists_doubled
  exact hw.exists_command (.endDrag (.text "p"))
    (P := fun u => u.Listed namelessVocabulary 0 doubled ∧ u.dragging = false)
    (Ends.bind (h.ends_require rfl (Ends.bind (Ends.modify
      (Ends.pure ⟨⟨h.vocabulary, h.muted, h.entries⟩, rfl⟩)))))

theorem tops_doubled (h : w.Listed namelessVocabulary muted doubled) :
    w.tops = .ok [{ plugged with next := .text "c" }] := by
  have hspots : w.spots = .ok [⟨{ plugged with next := .text "c" }, .float (.zero false),
      .float (.zero false), 0⟩] := by
    rw [Workspace.spots, h.entries]
    rfl
  simp only [Workspace.tops, hspots, Bind.bind, Except.bind, Workspace.sort_spot]
  rfl

theorem size_doubled (h : w.Listed namelessVocabulary muted doubled) : w.size = 2 := h.size_eq

theorem chain_doubled (h : w.Listed namelessVocabulary muted doubled) :
    w.chain (.text "p") = .ok doubled := by
  rw [Workspace.chain, size_doubled h]
  simp only [Workspace.chainFrom, h.find?_eq]
  rfl

theorem descendants_doubled (h : w.Listed namelessVocabulary muted doubled) :
    w.descendants (.text "p") = .ok [{ plugged with next := .text "c" }, hung "c", hung "c"] := by
  rw [Workspace.descendants_eq, size_doubled h]
  simp only [Workspace.descendantsFrom, h.find?_eq]
  rfl

/-- There is a workspace that the blocks at the top do not share out. -/
theorem exists_shared : ∃ w, History .journal namelessVocabulary w ∧
    ¬ ∃ heads below, w.Parted heads below := by
  obtain ⟨w, hw, h⟩ := exists_doubled
  refine ⟨w, hw, ?_⟩
  rintro ⟨heads, below, hparted⟩
  obtain rfl := Except.ok.inj (hparted.tops.symm.trans (tops_doubled h))
  obtain ⟨bs, _, hbs, hrest, rfl⟩ := List.forall₂_cons_left_iff.mp (forall₂_of_mapM hparted.walks)
  cases hrest
  obtain rfl := Except.ok.inj ((descendants_doubled h).symm.trans hbs)
  have hlength := hparted.all.length_eq
  rw [Workspace.blocks, h.entries] at hlength
  exact absurd hlength (by decide)

end Loading

/-- An audience that fails at whatever it is told. -/
def Audience.deaf {σ : Type} : Audience σ := ⟨fun _ => throw (.failure .badValue)⟩

/-- Where the audience fails, the other blocks at the top are left. -/
theorem Act.ends_clear_deaf {σ : Type} {s : Scene σ} (h : s.workspace.Sound)
    (hm : s.workspace.muted = 0) {t t' : Block} {rest bs bs' : List Block} {x x' : String}
    (htops : s.workspace.tops = .ok (t :: t' :: rest)) (ht : s.workspace.Heads x t bs)
    (ht' : s.workspace.Heads x' t' bs') (hne : x' ≠ x) :
    Ends (clear .deaf) s (fun _ _ => False) fun _ u => ∃ k, (u.workspace.find? k).isSome := by
  refine Ends.bind (Ends.get (Ends.bind (ends_ofExcept_ok htops ?_)))
  rw [List.map_cons, h.id_eq ht.there]
  refine ends_deleteAll_cons ht.there
    (Ends.bind (ends_edit (Edit.ends_delete_head h ht fun xs hxs => ?_)))
  refine Ends.bind (Ends.bind (Ends.get ?_))
  dsimp only
  rw [if_pos ((s.workspace.muted_discard xs).trans hm)]
  refine Ends.bind (Ends.throw ⟨.text x', ?_⟩)
  have hleft := (ht'.discard h (h.discard_branch ht.top hxs) hxs ht.top hne).there
  change ((s.workspace.discard xs).block? x').isSome = true
  rw [hleft]
  rfl

/-- Where two blocks hang nowhere, there are a first and a second block at the top. -/
theorem Workspace.Sound.exists_two_heads {w : Workspace} (h : w.Sound) (hp : w.Placed)
    {x y : String} {b c : Block} (hb : w.block? x = some b) (hc : w.block? y = some c)
    (hbt : b.isTop = true) (hct : c.isTop = true) (hxy : x ≠ y) :
    ∃ t t' rest bs bs' i j, w.tops = .ok (t :: t' :: rest) ∧ w.Heads i t bs ∧ w.Heads j t' bs' ∧
      j ≠ i := by
  obtain ⟨heads, below, hparted, hheads, hnd, hall⟩ := h.exists_parted hp
  have hhead {z : String} {d : Block} (hd : w.block? z = some d) (hdt : d.isTop = true) :
      ∃ t ∈ heads, t.id = .text z := by
    obtain ⟨y, hy, hzy⟩ := hall z (by rw [hd]; rfl)
    rw [hzy.eq_of_root ((h.isTop_iff hd).mp hdt)]
    exact List.mem_map.mp hy
  obtain ⟨t, ht, htx⟩ := hhead hb hbt
  obtain ⟨t', ht', hty⟩ := hhead hc hct
  rcases heads with - | ⟨u, - | ⟨u', rest⟩⟩
  · cases ht
  · rw [List.mem_singleton.mp ht, ← List.mem_singleton.mp ht', hty] at htx
    exact absurd (Value.text.inj htx).symm hxy
  · obtain ⟨bs, _, ⟨i, hu⟩, hrest, rfl⟩ := List.forall₂_cons_left_iff.mp hheads
    obtain ⟨bs', _, ⟨j, hu'⟩, -, rfl⟩ := List.forall₂_cons_left_iff.mp hrest
    refine ⟨u, u', rest, bs, bs', i, j, hparted.tops, hu, hu', ?_⟩
    rintro rfl
    have hids : u'.id = u.id := (h.id_eq hu'.there).trans (h.id_eq hu.there).symm
    exact (List.nodup_cons.mp hnd).1 (by simp [hids])

/-- There is a workspace with two blocks that hang nowhere. -/
theorem History.exists_pair : ∃ w b c, History .journal .stock w ∧ w.block? "a" = some b ∧
    w.block? "b" = some c ∧ b.isTop = true ∧ c.isTop = true := by
  obtain ⟨g, hg, hv, hlone⟩ := exists_text (x := "a") (by decide) (by decide)
  have hfree : g.block? "b" = none := (hlone.block? "b").trans (if_neg (by decide))
  have hw := hg.exists_created (by decide) (by decide) (Edit.creates_newText hv hfree)
  refine ⟨g.insert "b" (Edit.newText "b"), Edit.newText "a", Edit.newText "b", hw, ?_, ?_, rfl, rfl⟩
  · rw [Workspace.block?_insert, if_neg (by decide)]
    exact hlone.block?_self
  · rw [Workspace.block?_insert, if_pos rfl]

/-- There is a workspace that is not emptied where the audience fails. -/
theorem Loading.exists_left : ∃ s : Scene Unit, History .journal .stock s.workspace ∧
    ∃ e u, Act.clear .deaf s = .error e u ∧ ∃ k, (u.workspace.find? k).isSome := by
  obtain ⟨w, b, c, hw, hb, hc, hbt, hct⟩ := History.exists_pair
  have hsound := hw.sound Audience.tame_journal Vocabulary.worded_stock
  obtain ⟨t, t', rest, bs, bs', i, j, htops, ht, ht', hne⟩ := hsound.exists_two_heads
    (hw.placed Audience.tame_journal Vocabulary.worded_stock) hb hc hbt hct (by decide)
  let s : Scene Unit := { workspace := w, audience := () }
  have hends := Act.ends_clear_deaf (s := s) hsound (hw.unmuted Audience.open_journal) htops ht ht' hne
  cases hresult : Act.clear .deaf s with
  | ok _ v =>
      rw [Ends.of_ok hresult] at hends
      exact hends.elim
  | error e v =>
      rw [Ends.of_error hresult] at hends
      exact ⟨s, hw, e, v, hresult, hends⟩

/-- The blocks at the top do not always share out the workspace, and it is not always emptied. -/
theorem Loading.not_always_cleared :
    (∃ w, History .journal namelessVocabulary w ∧ ¬ ∃ heads below, w.Parted heads below) ∧
      ∃ s : Scene Unit, History .journal .stock s.workspace ∧
        ∃ e u, Act.clear .deaf s = .error e u ∧ ∃ k, (u.workspace.find? k).isSome :=
  ⟨exists_shared, exists_left⟩

end Blockwork
