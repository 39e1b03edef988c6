import Blockwork.Compile.Stock
import Blockwork.Proofs.Chronicle
import Blockwork.Proofs.Likeness
import Blockwork.Proofs.Singles

/-!
# Rearranged workspaces

Which program a workspace has and how it is written down depends on its blocks and their links, and
not on how they came about.  Two workspaces that hold the same (`Workspace.Agrees`) may have their
blocks in different orders, and so may blocks have what is plugged into them (`Block.Replugged`).  As
long as no two blocks at the top are in one place (`Workspace.Apart`), their places alone put these
into order (`Workspace.LikeBy.twin_tops`); everything else is looked up under keys.  So chronicles
that end in the same blocks end in one document and one program (`Chronicle.program_rearranged`).
-/

namespace Blockwork

/-! ### Lists in order -/

/-- Two lists correspond item by item when their items correspond somehow, and both are in the order
of a rank that items which correspond share. -/
theorem forall₂_of_ranked {α β γ : Type} [LinearOrder γ] {R : α → β → Prop} {p : α → γ} {q : β → γ}
    {as : List α} {bs : List β} (ha : as.Pairwise fun a a' => p a < p a')
    (hb : bs.Pairwise fun b b' => q b < q b') (hr : ∀ a b, R a b → p a = q b)
    (hab : ∀ a ∈ as, ∃ b ∈ bs, R a b) (hba : ∀ b ∈ bs, ∃ a ∈ as, R a b) : List.Forall₂ R as bs := by
  induction as generalizing bs with
  | nil =>
      cases bs with
      | nil => exact .nil
      | cons b bs =>
          obtain ⟨a, ha, -⟩ := hba b List.mem_cons_self
          cases ha
  | cons a as ih =>
      cases bs with
      | nil =>
          obtain ⟨b, hb, -⟩ := hab a List.mem_cons_self
          cases hb
      | cons b bs =>
          rw [List.pairwise_cons] at ha hb
          -- each of the two first items corresponds to one that ranks no lower than the other
          obtain ⟨b', hb', hab'⟩ := hab a List.mem_cons_self
          obtain ⟨a', ha', hba'⟩ := hba b List.mem_cons_self
          have hle : q b ≤ p a := by
            rw [hr a b' hab']
            rcases List.mem_cons.mp hb' with rfl | hb'
            · exact le_refl _
            · exact (hb.1 b' hb').le
          have hge : p a ≤ q b := by
            rw [← hr a' b hba']
            rcases List.mem_cons.mp ha' with rfl | ha'
            · exact le_refl _
            · exact (ha.1 a' ha').le
          have hhead : R a b := by
            rcases List.mem_cons.mp hb' with rfl | hb'
            · exact hab'
            · exact absurd (hr a b' hab') (hge.trans_lt (hb.1 b' hb')).ne
          refine .cons hhead (ih ha.2 hb.2 (fun c hc => ?_) fun d hd => ?_)
          · obtain ⟨d, hd, hcd⟩ := hab c (List.mem_cons_of_mem _ hc)
            rcases List.mem_cons.mp hd with rfl | hd
            · exact absurd (hr c d hcd) (hle.trans_lt (ha.1 c hc)).ne'
            · exact ⟨d, hd, hcd⟩
          · obtain ⟨c, hc, hcd⟩ := hba d (List.mem_cons_of_mem _ hd)
            rcases List.mem_cons.mp hc with rfl | hc
            · exact absurd (hr c d hcd) (hge.trans_lt (hb.1 d hd)).ne
            · exact ⟨c, hc, hcd⟩

/-- Entries with the same keys in the same order, each key once, hold the same when the same is found
under each key. -/
theorem Entries.eq_of_get? {es fs : List (Key × Value)} (hkeys : es.map (·.1) = fs.map (·.1))
    (hnd : (es.map (·.1.name)).Nodup) (h : ∀ k, get? es k = get? fs k) : es = fs := by
  induction es generalizing fs with
  | nil => exact (List.map_eq_nil_iff.mp hkeys.symm).symm
  | cons e es ih =>
      cases fs with
      | nil => cases hkeys
      | cons f fs =>
          obtain ⟨k, u⟩ := e
          obtain ⟨j, u'⟩ := f
          obtain ⟨rfl, hrest⟩ := List.cons.inj hkeys
          rw [List.map_cons, List.nodup_cons] at hnd
          have hhead := h k
          rw [get?_cons, get?_cons, if_pos BEq.rfl, if_pos BEq.rfl] at hhead
          obtain rfl := Option.some.inj hhead
          rw [ih hrest hnd.2 fun i => ?_]
          have hi := h i
          rw [get?_cons, get?_cons] at hi
          by_cases hki : (k == i) = true
          · have habsent (gs : List (Key × Value)) (hg : k.name ∉ gs.map (·.1.name)) :
                get? gs i = none := by
              rw [get?, Option.map_eq_none_iff, List.find?_eq_none]
              intro g hg' hgi
              refine hg (List.mem_map.mpr ⟨g, hg', ?_⟩)
              rw [(Key.beq_iff_name ..).mp hgi, (Key.beq_iff_name ..).mp hki]
            have hfs : fs.map (·.1.name) = es.map (·.1.name) := by
              simpa [Function.comp_def] using (congrArg (List.map Key.name) hrest).symm
            rw [habsent es hnd.1, habsent fs (hfs ▸ hnd.1)]
          · rwa [if_neg hki, if_neg hki] at hi

/-- The same is found in entries in another order, each key once. -/
theorem Entries.get?_eq_of_perm {β : Type} {es fs : List (Key × β)} (h : es.Perm fs)
    (hnd : (es.map (·.1.name)).Nodup) (k : Key) : get? es k = get? fs k := by
  induction h with
  | nil => rfl
  | cons e _ ih =>
      rw [List.map_cons, List.nodup_cons] at hnd
      rw [get?_cons, get?_cons, ih hnd.2]
  | swap e f es =>
      rw [get?_cons, get?_cons, get?_cons, get?_cons]
      by_cases he : (e.1 == k) = true
      · have hf : ¬ (f.1 == k) = true := fun hf => by
          have hname := ((Key.beq_iff_name ..).mp hf).trans ((Key.beq_iff_name ..).mp he).symm
          simp [hname] at hnd
        rw [if_pos he, if_neg hf, if_pos he]
      · rw [if_neg he, if_neg he]
  | trans h _ ih ih' => exact (ih hnd).trans (ih' ((h.map _).nodup_iff.mp hnd))

/-! ### The blocks at the top -/

/-- What blocks at the top are ordered by, as long as no two are in one place. -/
def Block.rank (b : Block) : WithBot (WithTop ℚ) ×ₗ WithBot (WithTop ℚ) :=
  match b.position with
  | [x, y] => toLex (Workspace.Spot.levelOf y, Workspace.Spot.levelOf x)
  | _ => toLex (⊥, ⊥)

/-- Whether two blocks are in one place. -/
def Block.Meets (b c : Block) : Prop := ∃ x y x' y', b.position = [.float x, .float y] ∧
  c.position = [.float x', .float y'] ∧ x.same x' = true ∧ y.same y' = true

namespace Workspace

/-- Whether the blocks at the top are in different places, all of which can be compared. -/
structure Apart (w : Workspace) : Prop where
  numbers : ∀ k b, w.find? k = some b → b.isTop = true → ∀ x ∈ b.position, x.isNaN = false
  places : ∀ j k b c, w.find? j = some b → w.find? k = some c → b.isTop = true → c.isTop = true →
    b.Meets c → (j == k) = true

variable {w u : Workspace}

theorem exists_find?_of_mem {b : Block} (hb : b ∈ w.blocks) : ∃ k, w.find? k = some b := by
  obtain ⟨e, he, rfl⟩ := List.mem_map.mp hb
  exact ⟨e.1, find?_of_mem_entries he⟩

/-- Blocks at different places in the order of creation stand under different keys. -/
theorem exists_keys {i j : Nat} {b c : Block} (hi : w.blocks[i]? = some b)
    (hj : w.blocks[j]? = some c) (hij : i < j) :
    ∃ k l, w.find? k = some b ∧ w.find? l = some c ∧ (k == l) = false := by
  rw [blocks, List.getElem?_map, Option.map_eq_some_iff] at hi hj
  obtain ⟨e, he, rfl⟩ := hi
  obtain ⟨f, hf, rfl⟩ := hj
  refine ⟨e.1, f.1, find?_of_mem_entries (List.mem_of_getElem? he),
    find?_of_mem_entries (List.mem_of_getElem? hf), ?_⟩
  rw [Bool.eq_false_iff]
  intro hef
  have hname (n : Nat) (g : Key × Block) (hg : w.entries[n]? = some g) :
      (w.entries.map (·.1.name))[n]? = some g.1.name := by rw [List.getElem?_map, hg]; rfl
  have hn := hname i e he
  rw [(Key.beq_iff_name ..).mp hef, ← hname j f hf] at hn
  have hlt : i < (w.entries.map (·.1.name)).length := by
    rw [List.length_map]
    exact (List.getElem?_eq_some_iff.mp he).1
  exact hij.ne ((List.getElem?_inj hlt w.table.distinct).mp hn)

/-- Blocks at the top that are in different places come in the order of their ranks. -/
theorem Apart.rank_lt (h : w.Apart) {b c : Block} (hb : b ∈ w.blocks) (hc : c ∈ w.blocks)
    (hbt : b.isTop = true) (hct : c.isTop = true) (hbc : w.Precedes b c) : b.rank < c.rank := by
  obtain ⟨i, j, x, y, x', y', hi, hj, hpb, hpc, hlt⟩ := hbc
  obtain ⟨k, hk⟩ := exists_find?_of_mem hb
  obtain ⟨l, hl⟩ := exists_find?_of_mem hc
  have hnb := h.numbers k b hk hbt
  have hnc := h.numbers l c hl hct
  rw [hpb] at hnb
  rw [hpc] at hnc
  have hx : x.isNaN = false := Value.isNaN_float x ▸ hnb _ (by simp)
  have hy : y.isNaN = false := Value.isNaN_float y ▸ hnb _ (by simp)
  have hx' : x'.isNaN = false := Value.isNaN_float x' ▸ hnc _ (by simp)
  have hy' : y'.isNaN = false := Value.isNaN_float y' ▸ hnc _ (by simp)
  unfold Block.rank
  rw [hpb, hpc, Prod.Lex.toLex_lt_toLex]
  change y.level < y'.level ∨ y.level = y'.level ∧ x.level < x'.level
  rw [← Binary64.lt_iff_level hy hy', ← Binary64.same_iff_level hy hy', ← Binary64.lt_iff_level hx hx']
  rcases hlt with hlt | ⟨hsame, hlt | ⟨hsame', hij⟩⟩
  · exact .inl hlt
  · exact .inr ⟨hsame, hlt⟩
  · obtain ⟨k, l, hk, hl, hkl⟩ := exists_keys hi hj hij
    have hmeet := h.places k l b c hk hl hbt hct ⟨x, y, x', y', hpb, hpc, hsame', hsame⟩
    rw [hkl] at hmeet
    cases hmeet

/-- The blocks at the top of a workspace where they are in different places. -/
theorem Apart.exists_tops (h : w.Apart) (hf : w.Filed) (hp : ∀ k b, w.find? k = some b →
    b.isTop = true → ∃ x y, b.position = [.float x, .float y]) :
    ∃ tops, w.tops = .ok tops ∧ (∀ b, b ∈ tops ↔ b ∈ w.blocks ∧ b.isTop = true) ∧
      tops.Pairwise fun b c => b.rank < c.rank := by
  obtain ⟨tops, htops, hperm, hsorted⟩ := hf.exists_tops hp
  have hmem (b : Block) : b ∈ tops ↔ b ∈ w.blocks ∧ b.isTop = true := by
    rw [hperm.mem_iff, List.mem_filter]
  refine ⟨tops, htops, hmem, ?_⟩
  have hnumbers : ∀ b ∈ tops, ∀ x ∈ b.position, x.isNaN = false := fun b hb => by
    obtain ⟨k, hk⟩ := exists_find?_of_mem ((hmem b).mp hb).1
    exact h.numbers k b hk ((hmem b).mp hb).2
  refine (hsorted hnumbers).imp_of_mem fun {b c} hb hc hbc => ?_
  exact h.rank_lt ((hmem b).mp hb).1 ((hmem c).mp hc).1 ((hmem b).mp hb).2 ((hmem c).mp hc).2 hbc

section

variable {R : Block → Block → Prop} (h : w.LikeBy R u)
  (hR : ∀ b c, R b c → c.isTop = b.isTop ∧ c.position = b.position)

include h

theorem LikeBy.exists_right {k : Key} {b : Block} (hb : w.find? k = some b) :
    ∃ c, u.find? k = some c ∧ R b c := by
  have hrel := h.find? k
  rw [hb] at hrel
  generalize u.find? k = c at hrel
  cases hrel with
  | some hbc => exact ⟨_, rfl, hbc⟩

theorem LikeBy.exists_left {k : Key} {c : Block} (hc : u.find? k = some c) :
    ∃ b, w.find? k = some b ∧ R b c := by
  have hrel := h.find? k
  rw [hc] at hrel
  generalize w.find? k = b at hrel
  cases hrel with
  | some hbc => exact ⟨_, rfl, hbc⟩

include hR

theorem Apart.like (hw : w.Apart) : u.Apart where
  numbers k c hc hct := by
    obtain ⟨b, hb, hbc⟩ := h.exists_left hc
    obtain ⟨htop, hpos⟩ := hR b c hbc
    rw [hpos]
    exact hw.numbers k b hb (htop ▸ hct)
  places j k c c' hc hc' hct hct' hmeet := by
    obtain ⟨b, hb, hbc⟩ := h.exists_left hc
    obtain ⟨b', hb', hbc'⟩ := h.exists_left hc'
    obtain ⟨htop, hpos⟩ := hR b c hbc
    obtain ⟨htop', hpos'⟩ := hR b' c' hbc'
    refine hw.places j k b b' hb hb' (htop ▸ hct) (htop' ▸ hct') ?_
    rwa [Block.Meets, hpos, hpos'] at hmeet

/-- **Blocks at the top that are in different places come in one order**, however the workspaces came
about. -/
theorem LikeBy.twin_tops (hw : w.Apart) (hf : w.Filed) (hf' : u.Filed)
    (hp : ∀ k b, w.find? k = some b → b.isTop = true → ∃ x y, b.position = [.float x, .float y]) :
    Except.Twin Eq (List.Forall₂ fun b c => R b c ∧ c.position = b.position) w.tops u.tops := by
  have hp' (k : Key) (c : Block) (hc : u.find? k = some c) (hct : c.isTop = true) :
      ∃ x y, c.position = [.float x, .float y] := by
    obtain ⟨b, hb, hbc⟩ := h.exists_left hc
    obtain ⟨htop, hpos⟩ := hR b c hbc
    rw [hpos]
    exact hp k b hb (htop ▸ hct)
  obtain ⟨bs, hbs, hmem, hrank⟩ := hw.exists_tops hf hp
  obtain ⟨cs, hcs, hmem', hrank'⟩ := (hw.like h hR).exists_tops hf' hp'
  rw [hbs, hcs]
  refine .ok (List.Forall₂.imp (fun b c hbc => ⟨hbc, (hR b c hbc).2⟩) ?_)
  refine forall₂_of_ranked hrank hrank' (fun b c hbc => ?_) (fun b hb => ?_) fun c hc => ?_
  · unfold Block.rank
    rw [(hR b c hbc).2]
  · obtain ⟨hbw, hbt⟩ := (hmem b).mp hb
    obtain ⟨k, hk⟩ := exists_find?_of_mem hbw
    obtain ⟨c, hc, hbc⟩ := h.exists_right hk
    exact ⟨c, (hmem' c).mpr ⟨mem_blocks hc, (hR b c hbc).1.trans hbt⟩, hbc⟩
  · obtain ⟨hcu, hct⟩ := (hmem' c).mp hc
    obtain ⟨k, hk⟩ := exists_find?_of_mem hcu
    obtain ⟨b, hb, hbc⟩ := h.exists_left hk
    exact ⟨b, (hmem b).mpr ⟨mem_blocks hb, (hR b c hbc).1.symm.trans hct⟩, hbc⟩

end

end Workspace

/-! ### What is plugged in, in whatever order -/

/-- Whether two blocks differ in no more than the order in which others were plugged into them. -/
def Block.Replugged (b c : Block) : Prop :=
  ∃ inputs, c = { b with inputs } ∧ ∀ name, Entries.get? inputs name = Entries.get? b.inputs name

theorem Block.Replugged.like {b c : Block} (h : b.Replugged c) : b.Like c := by
  obtain ⟨inputs, rfl, hinputs⟩ := h
  exact ⟨rfl, rfl, rfl, rfl, rfl, hinputs⟩

/-- The stock rules look at nothing but fields and at what is plugged in. -/
theorem Compiler.respects_stock (words : List String) {R : Block → Block → Prop}
    (hR : ∀ b c, R b c → c.fields = b.fields) : (stock.reserve words).Respects R := by
  intro e he b c plug hbc
  have hfield (name : Key) : Compile.Site.field ⟨c, plug⟩ name = Compile.Site.field ⟨b, plug⟩ name := by
    unfold Compile.Site.field
    rw [hR b c hbc]
  simp only [stock, reserve, Compile.stockRules, List.mem_cons, List.not_mem_nil, or_false] at he
  rcases he with rfl | rfl | rfl | rfl | rfl | rfl | rfl
  all_goals simp only [Compile.addText, Compile.wait, Compile.text, Compile.textJoin,
    Compile.colourPicker, Compile.colourRgb, Compile.mathNumber, hfield]

/-! ### Workspaces that hold the same -/

/-- The names of the fields of a type tell them apart, too. -/
theorem Declaration.Articulate.nodup_defaults {d : Declaration} (h : d.Articulate) :
    (d.defaults.map (·.1.name)).Nodup := by
  have hnames : d.defaults.map (·.1.name) =
      (d.fields.map fun s => s.name.key?.map (·.name)).filterMap id := by
    rw [defaults, List.map_filterMap, List.filterMap_map]
    refine List.filterMap_congr fun s _ => ?_
    rw [Option.map_map]
    rfl
  rw [hnames]
  refine List.Nodup.filterMap (fun a b n ha hb => ?_) (h.sublist (List.filter_sublist.map _))
  exact (Option.mem_def.mp ha).trans (Option.mem_def.mp hb).symm

/-- Whether the names of arguments tell these apart in every type of a vocabulary. -/
def Vocabulary.Articulate (v : Vocabulary) : Prop := ∀ d ∈ v.declarations, d.Articulate

theorem Vocabulary.articulate_stock : Vocabulary.stock.Articulate := by
  unfold Vocabulary.Articulate Declaration.Articulate
  decide

theorem Vocabulary.Articulate.orStock {v : Vocabulary} (h : v.Articulate) : v.orStock.Articulate := by
  change (if v.declarations.isEmpty then Vocabulary.stock else v).Articulate
  split
  · exact Vocabulary.articulate_stock
  · exact h

/-- Whether two blocks hold the same in their fields, are turned on alike, are in one place and have
the same links; in what order there is something in their fields and sockets does not count. -/
structure Block.Agrees (b c : Block) : Prop where
  id : c.id = b.id
  type : c.type = b.type
  fields : ∀ name, Entries.get? c.fields name = Entries.get? b.fields name
  inputs : ∀ name, Entries.get? c.inputs name = Entries.get? b.inputs name
  next : c.next = b.next
  parent : c.parent = b.parent
  parentInput : c.parentInput = b.parentInput
  position : c.position = b.position
  enabled : c.enabled = b.enabled

/-- Whether two workspaces have the same keys, and blocks under them that agree. -/
def Workspace.Agrees (w u : Workspace) : Prop := ∀ k, Option.Rel Block.Agrees (w.find? k) (u.find? k)

/-- Blocks that agree, and are dressed as their types say, differ in no more than the order in which
others were plugged into them. -/
theorem Block.Agrees.replugged {v : Vocabulary} (hv : v.Articulate) {b c : Block} {d e : Declaration}
    (h : b.Agrees c) (hb : b.Dressed v d) (hc : c.Dressed v e) : b.Replugged c := by
  have hd := hc.declared
  rw [h.type] at hd
  obtain rfl := Except.ok.inj (hd.symm.trans hb.declared)
  have hfields : c.fields = b.fields := by
    refine Entries.eq_of_get? (hc.keys.trans hb.keys.symm) ?_ h.fields
    have hnd := (hv e (Vocabulary.mem_of_lookup hd)).nodup_defaults
    have hnames : c.fields.map (·.1.name) = e.defaults.map (·.1.name) := by
      simpa [Function.comp_def] using congrArg (List.map Key.name) hc.keys
    rw [hnames]
    exact hnd
  refine ⟨c.inputs, ?_, h.inputs⟩
  obtain ⟨hid, htype, -, -, hnext, hparent, hinput, hposition, henabled⟩ := h
  have hcolour := hc.colour.trans hb.colour.symm
  have hsaved := hc.saved.trans hb.saved.symm
  cases b
  cases c
  simp_all

/-! ### Chronicles that end in the same blocks -/

section

variable {σ τ : Type} {a : Audience σ} {a' : Audience τ} {v : Vocabulary} {w u : Workspace}

theorem Chronicle.likeBy (hv : v.Articulate) (ha : a.Docile) (ha' : a'.Docile) (h : Chronicle a v w)
    (h' : Chronicle a' v u) (hagree : w.Agrees u) : w.LikeBy Block.Replugged u where
  like := Block.Replugged.like
  vocabulary := (h'.vocabulary ha').trans (h.vocabulary ha).symm
  find? k := by
    have hrel := hagree k
    cases hb : w.find? k with
    | none =>
        rw [hb] at hrel
        cases hc : u.find? k with
        | none => exact .none
        | some c => rw [hc] at hrel; cases hrel
    | some b =>
        rw [hb] at hrel
        cases hc : u.find? k with
        | none => rw [hc] at hrel; cases hrel
        | some c =>
            rw [hc] at hrel
            cases hrel with
            | some hbc =>
                obtain ⟨d, hd⟩ := h.dressed ha hb
                obtain ⟨e, he⟩ := h'.dressed ha' hc
                exact .some (hbc.replugged hv.orStock hd he)

/-- **Chronicles that end in the same blocks end in one program and one document**, when the blocks
at the top are in different places: with the stock rules, and with all rules that do not look at the
order in which blocks were plugged in. -/
theorem Chronicle.program_rearranged (hv : v.Articulate) (ha : a.Docile) (ha' : a'.Docile)
    (h : Chronicle a v w) (h' : Chronicle a' v u) (hagree : w.Agrees u) (hapart : w.Apart) :
    (∀ words, (Compiler.stock.reserve words).program u = (Compiler.stock.reserve words).program w) ∧
      (∀ t : Compiler, t.Respects Block.Replugged → t.program u = t.program w ∧
        Session.prepare t u = Session.prepare t w) ∧
      Snapshot.ofWorkspace u = Snapshot.ofWorkspace w := by
  have hlike := h.likeBy hv ha ha' h' hagree
  have htops := hlike.twin_tops
    (fun b c hbc => by
      obtain ⟨_, rfl, -⟩ := hbc
      exact ⟨rfl, rfl⟩)
    hapart (h.filed ha) (h'.filed ha') fun k b hb _ => by
      obtain ⟨d, hd⟩ := h.dressed ha hb
      exact hd.placed
  refine ⟨fun words => hlike.program_eq htops (Compiler.respects_stock words fun b c hbc => ?_),
    fun t ht => ⟨hlike.program_eq htops ht, hlike.prepare_eq htops ht⟩, hlike.document_eq htops⟩
  exact hbc.like.fields

end

/-! ### Texts that are plugged in in either order -/

namespace Joining

variable {w : Workspace} {es : List (Key × Block)} {x : String}

/-- A block that joins two texts. -/
def joint : Block := Edit.newBlock "j" (.text "text_join") Vocabulary.textJoin []
  [.float (.zero false), .float .one]

/-- A text that is plugged into a socket of that block. -/
def piece (x socket : String) : Block :=
  { Edit.newText x with parent := .text "j", parentInput := .text socket }

/-- The blocks when the left one is plugged in first. -/
def leftFirst : List (Key × Block) :=
  [(.text "l", piece "l" "A"), (.text "r", piece "r" "B"),
    (.text "j", { joint with inputs := [(.text "A", .text "l"), (.text "B", .text "r")] }),
    (.text "w", waitAt "w" (.zero false))]

/-- The blocks when they are created the other way round, and the right one is plugged in first. -/
def rightFirst : List (Key × Block) :=
  [(.text "w", waitAt "w" (.zero false)),
    (.text "j", { joint with inputs := [(.text "B", .text "r"), (.text "A", .text "l")] }),
    (.text "r", piece "r" "B"), (.text "l", piece "l" "A")]

/-- A new text takes its place behind the blocks that are there. -/
theorem exists_piece (hw : History .journal .stock w) (h : w.Listed .stock 0 es) (hx : x ≠ "")
    (hl : x.length < 5) (hn : Entries.get? es (.text x) = none) :
    ∃ u, History .journal .stock u ∧
      u.Listed .stock 0 (Entries.put es (.text x) (Edit.newText x)) :=
  hw.exists_listed h hx hl (Edit.creates_newText h.vocabulary ((h.find?_eq _).trans hn))

theorem creates_joint (hw : w.vocabulary = .stock) (hn : w.block? "j" = none) :
    Edit.Creates w (.text "text_join") (.text "j") (.list [.float (.zero false), .float .one]) []
      Vocabulary.textJoin Vocabulary.textJoin.defaults [.float (.zero false), .float .one] where
  declared := by rw [hw]; rfl
  filled := rfl
  placed := rfl
  unused := .inr hn

theorem exists_joint (hw : History .journal .stock w) (h : w.Listed .stock 0 es)
    (hn : Entries.get? es (.text "j") = none) :
    ∃ u, History .journal .stock u ∧ u.Listed .stock 0 (Entries.put es (.text "j") joint) :=
  hw.exists_listed h (by decide) (by decide)
    (creates_joint h.vocabulary ((h.find?_eq _).trans hn))

/-- The text is plugged into an empty socket of the block that joins. -/
theorem exists_joined {inputs : List (Key × Value)} (socket : String)
    (hw : History .journal .stock w) (h : w.Listed .stock 0 es)
    (hj : Entries.get? es (.text "j") = some { joint with inputs })
    (hx : Entries.get? es (.text x) = some (Edit.newText x)) (hne : "j" ≠ x)
    (hs : Vocabulary.textJoin.input? (.text socket) = some (Vocabulary.inputOf socket "String"))
    (hfree : Entries.get? inputs (.text socket) = none) :
    ∃ u, History .journal .stock u ∧ u.Listed .stock 0 (Entries.put (Entries.put es (.text "j")
      { joint with inputs := Entries.put inputs (.text socket) (.text x) }) (.text x)
        (piece x socket)) := by
  have hbelow : w.hangsFrom (.text x) (.text "j") = .ok false := h.hangsFrom_loose hj rfl rfl hne
  refine hw.exists_command (.connectValue (.text "j") (.text socket) (.text x))
    (h.ends_connectValue_free hj hx (h.declarationOf_eq rfl rfl) hs rfl
      (h.declarationOf_eq rfl rfl) rfl rfl hbelow hfree rfl ?_ fun _ _ hu => hu)
  rw [Entries.get?_put, if_neg (by simpa using hne), hx]

theorem exists_leftFirst : ∃ w, History .journal .stock w ∧ w.Listed .stock 0 leftFirst := by
  obtain ⟨w, hw, h⟩ := exists_piece (.new 0) (Workspace.listed_new rfl 0) (x := "l") (by decide)
    (by decide) rfl
  obtain ⟨w, hw, h⟩ := exists_piece hw h (x := "r") (by decide) (by decide) rfl
  obtain ⟨w, hw, h⟩ := exists_joint hw h rfl
  obtain ⟨w, hw, h⟩ := hw.exists_waiting h (x := "w") (by decide) (by decide) rfl (.zero false)
  obtain ⟨w, hw, h⟩ := exists_joined "A" hw h (x := "l") rfl rfl (by decide) rfl rfl
  exact exists_joined "B" hw h (x := "r") rfl rfl (by decide) rfl rfl

theorem exists_rightFirst : ∃ w, History .journal .stock w ∧ w.Listed .stock 0 rightFirst := by
  obtain ⟨w, hw, h⟩ := (History.new 0).exists_waiting (Workspace.listed_new rfl 0) (x := "w")
    (by decide) (by decide) rfl (.zero false)
  obtain ⟨w, hw, h⟩ := exists_joint hw h rfl
  obtain ⟨w, hw, h⟩ := exists_piece hw h (x := "r") (by decide) (by decide) rfl
  obtain ⟨w, hw, h⟩ := exists_piece hw h (x := "l") (by decide) (by decide) rfl
  obtain ⟨w, hw, h⟩ := exists_joined "B" hw h (x := "r") rfl rfl (by decide) rfl rfl
  exact exists_joined "A" hw h (x := "l") rfl rfl (by decide) rfl rfl

theorem agrees_joined {u : Workspace} (h : w.Listed .stock 0 leftFirst)
    (h' : u.Listed .stock 0 rightFirst) : w.Agrees u := fun k => by
  let turned (b : Block) : Block := { b with inputs := b.inputs.reverse }
  have hturned : rightFirst = (leftFirst.map fun e => (e.1, turned e.2)).reverse := rfl
  have hkeys : ((leftFirst.map fun e => (e.1, turned e.2)).reverse.map (·.1.name)).Nodup := by decide
  have hinputs : ∀ e ∈ leftFirst, (e.2.inputs.reverse.map (·.1.name)).Nodup := by decide
  rw [h.find?_eq, h'.find?_eq, hturned, Entries.get?_eq_of_perm (List.reverse_perm _) hkeys]
  unfold Entries.get?
  rw [List.find?_map]
  change Option.Rel _ _ (((leftFirst.find? (·.1 == k)).map _).map _)
  cases hfind : leftFirst.find? (·.1 == k) with
  | none => exact .none
  | some e =>
      refine .some ⟨rfl, rfl, fun _ => rfl, fun name => ?_, rfl, rfl, rfl, rfl, rfl⟩
      exact Entries.get?_eq_of_perm (List.reverse_perm _)
        (hinputs e (List.mem_of_find?_eq_some hfind)) name

theorem apart_leftFirst (h : w.Listed .stock 0 leftFirst) : w.Apart := by
  have hfound {k : Key} {b : Block} (hb : w.find? k = some b) :
      ∃ e ∈ leftFirst, k = e.1 ∧ e.2 = b := by
    obtain ⟨j, hmem, hjk⟩ := h.exists_mem hb
    have htext : ∀ e ∈ leftFirst, ∃ x, e.1 = .text x := by
      simp only [leftFirst, List.forall_mem_cons, List.not_mem_nil, false_imp_iff, implies_true,
        and_true]
      exact ⟨⟨_, rfl⟩, ⟨_, rfl⟩, ⟨_, rfl⟩, _, rfl⟩
    obtain ⟨x, rfl⟩ := htext _ hmem
    exact ⟨_, hmem, Key.text_beq_iff.mp hjk, rfl⟩
  -- only two of the blocks are at the top, at different heights
  have htops {k : Key} {b : Block} (hb : w.find? k = some b) (htop : b.isTop = true) :
      k = .text "j" ∧ b.position = [.float (.zero false), .float .one] ∨
        k = .text "w" ∧ b.position = [.float (.zero false), .float (.zero false)] := by
    obtain ⟨e, he, rfl, rfl⟩ := hfound hb
    simp only [leftFirst, List.mem_cons, List.not_mem_nil, or_false] at he
    obtain rfl | rfl | rfl | rfl := he
    · exact absurd htop (by decide)
    · exact absurd htop (by decide)
    · exact .inl ⟨rfl, rfl⟩
    · exact .inr ⟨rfl, rfl⟩
  refine ⟨fun k b hb htop => ?_, fun j k b c hb hc htop htop' hmeet => ?_⟩
  · obtain ⟨-, hp⟩ | ⟨-, hp⟩ := htops hb htop <;> rw [hp] <;> decide
  · obtain ⟨x, y, x', y', hp, hp', -, hy⟩ := hmeet
    obtain ⟨rfl, hplace⟩ | ⟨rfl, hplace⟩ := htops hb htop <;>
      obtain ⟨rfl, hplace'⟩ | ⟨rfl, hplace'⟩ := htops hc htop'
    · rfl
    · cases hp.symm.trans hplace
      cases hp'.symm.trans hplace'
      exact absurd hy (by decide)
    · cases hp.symm.trans hplace
      cases hp'.symm.trans hplace'
      exact absurd hy (by decide)
    · rfl

end Joining

open Joining in
/-- **Two texts that are plugged into one block, and a block beside it, make one program and one
document**, whichever of them was created first and whichever text was plugged in first. -/
theorem Chronicle.program_rearranged_pair : ∃ w u : Workspace, Chronicle .journal .stock w ∧
    Chronicle .journal .stock u ∧ w.entries = leftFirst ∧ u.entries = rightFirst ∧
      (Compiler.stock.reserve ["text"]).program u = (Compiler.stock.reserve ["text"]).program w ∧
      Snapshot.ofWorkspace u = Snapshot.ofWorkspace w := by
  obtain ⟨w, hw, h⟩ := exists_leftFirst
  obtain ⟨u, hu, h'⟩ := exists_rightFirst
  obtain ⟨hstock, -, hdocument⟩ := program_rearranged Vocabulary.articulate_stock
    Audience.docile_journal Audience.docile_journal hw.chronicle hu.chronicle (agrees_joined h h')
    (apart_leftFirst h)
  exact ⟨w, u, hw.chronicle, hu.chronicle, h.entries, h'.entries, hstock ["text"], hdocument⟩

end Blockwork
