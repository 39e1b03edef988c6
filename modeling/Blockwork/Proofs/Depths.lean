import Blockwork.Proofs.Inert
import Blockwork.Proofs.Outlining

/-!
# How deeply documents nest

The entry of a block holds the entries of what is plugged into it, three levels further down each,
and no entry of a block that follows: those of a chain stand in one list.  So a document nests no
deeper than eight levels and three for each value that is plugged into another one on the way down
from a block of a chain, whatever the chains are and however long (`Chronicle.depth_document_le`).
-/

namespace Blockwork

namespace Workspace

variable {w : Workspace}

/-! ### Ways down -/

/-- Whether `n` bindings lead from a block down, each into a socket of the one before. -/
inductive Descends (w : Workspace) : Block → Nat → Prop where
  | here {b : Block} : Descends w b 0
  | down {b c : Block} {s k : Key} {link : Value} {n : Nat} :
      (s, link) ∈ b.inputs → link.toKey = .ok k → w.find? k = some c → Descends w c n →
        Descends w b (n + 1)

/-- Whether a block hangs nowhere, or follows a block in a chain that does. -/
inductive Strung (w : Workspace) : Block → Prop where
  | top {k : Key} {b : Block} : w.find? k = some b → b.isTop = true → Strung w b
  | next {b c : Block} {k : Key} : Strung w b → b.next.isTruthy = true → b.next.toKey = .ok k →
      w.find? k = some c → Strung w c

theorem Strung.exists_find? {b : Block} (h : w.Strung b) : ∃ k, w.find? k = some b := by
  cases h with
  | top hb _ => exact ⟨_, hb⟩
  | next _ _ _ hb => exact ⟨_, hb⟩

/-- Whether `n` bindings lead down from some block of a chain. -/
def Plunges (w : Workspace) (n : Nat) : Prop := ∃ b, w.Strung b ∧ w.Descends b n

theorem strung_of_mem_chainFrom {n : Nat} {k : Key} {chain : List (Key × Block)}
    (h : w.chainFrom n k = .ok chain) (hk : ∀ b, w.find? k = some b → w.Strung b) :
    ∀ e ∈ chain, w.Strung e.2 := by
  induction n generalizing k chain with
  | zero =>
      obtain rfl := Except.ok.inj h
      exact fun e he => nomatch he
  | succ n ih =>
      unfold chainFrom at h
      split at h
      · obtain rfl := Except.ok.inj h
        exact fun e he => nomatch he
      rename_i b hb
      split at h
      · rename_i hnext
        obtain ⟨j, hj, h⟩ := exists_of_bind_ok h
        obtain ⟨rest, hrest, h⟩ := exists_of_bind_ok h
        obtain rfl := Except.ok.inj h
        intro e he
        rcases List.mem_cons.mp he with rfl | he
        · exact hk b hb
        · exact ih hrest (fun c hc => .next (hk b hb) hnext hj hc) e he
      · obtain rfl := Except.ok.inj h
        intro e he
        rw [List.mem_singleton.mp he]
        exact hk b hb

/-! ### Entries -/

/-- Whether nothing that a block holds is a list or a dictionary. -/
structure Slight (b : Block) : Prop where
  type : b.type.depth = 0
  id : b.id.depth = 0
  fields : ∀ e ∈ b.fields, e.2.depth = 0

theorem exists_of_mem_plugs {b : Block} {d : Declaration} {p : Key × Value}
    (hp : p ∈ Snapshot.plugs b d) : ∃ s, (s, p.2) ∈ b.inputs := by
  obtain ⟨s, -, h⟩ := List.mem_filterMap.mp hp
  obtain ⟨name, -, h⟩ := Option.bind_eq_some_iff.mp h
  obtain ⟨link, hlink, h⟩ := Option.bind_eq_some_iff.mp h
  split at h
  · cases h
  · obtain rfl := Option.some.inj h
    obtain ⟨s, hs, -⟩ := Entries.exists_mem_of_get? hlink
    exact ⟨s, hs⟩

/-- The entry of a block nests three levels deeper for each binding on the way down. -/
theorem depth_ofBlock_le {m d : Nat} {b : Block} {es : List (String × Value)}
    (hw : ∀ k c, w.find? k = some c → Slight c) (hb : Slight b)
    (hd : ∀ n, w.Descends b n → n ≤ d) (h : Snapshot.ofBlock w m b = .ok es) :
    ∀ e ∈ es, e.2.depth + 2 ≤ 3 * (d + 1) := by
  induction m generalizing b d es with
  | zero => cases h
  | succ m ih =>
      rw [Snapshot.ofBlock_succ] at h
      obtain ⟨declaration, -, h⟩ := exists_of_bind_ok h
      obtain ⟨inputs, hinputs, h⟩ := exists_of_bind_ok h
      obtain rfl := Except.ok.inj h
      refine depth_parts_le hb.type hb.id hb.fields (Value.depth_dict_le fun i hi => ?_)
      obtain ⟨p, hp, hi⟩ := exists_of_mem_forall₂ (forall₂_of_mapM hinputs) hi
      obtain ⟨k, c, es, hk, hc, hes, rfl⟩ := Snapshot.exists_of_inputAt hi
      obtain ⟨s, hs⟩ := exists_of_mem_plugs hp
      -- one binding less leads down from what is plugged in
      obtain ⟨d, rfl⟩ : ∃ d', d = d' + 1 :=
        Nat.exists_eq_succ_of_ne_zero (Nat.ne_zero_of_lt (hd 1 (.down hs hk hc .here)))
      have hentry := ih (hw k c hc)
        (fun n hn => Nat.le_of_succ_le_succ (hd (n + 1) (.down hs hk hc hn))) hes
      have hrecord : (Value.record es).depth ≤ 3 * d + 1 + 1 :=
        Value.depth_record_le fun e he => by
          have := hentry e he
          omega
      refine (Value.depth_record_le (n := 3 * d + 2) fun e he => ?_).trans ?_
      · rw [List.mem_singleton.mp he]
        exact hrecord
      · omega

theorem depth_entry_le {m d : Nat} {b : Block} {es : List (String × Value)}
    (hw : ∀ k c, w.find? k = some c → Slight c) (hb : Slight b)
    (hd : ∀ n, w.Descends b n → n ≤ d) (h : Snapshot.ofBlock w m b = .ok es) :
    ∀ e ∈ es, e.2.depth ≤ 3 * d + 1 := fun e he => by
  have := depth_ofBlock_le hw hb hd h e he
  omega

/-! ### Chains -/

/-- What is written of the blocks that follow nests no deeper than what is written of each. -/
theorem depth_itemsOf_le {d : Nat} {chain : List (Key × Block)} {vs : List Value}
    (hw : ∀ k c, w.find? k = some c → Slight c)
    (hchain : ∀ e ∈ chain, Slight e.2 ∧ ∀ n, w.Descends e.2 n → n ≤ d)
    (h : Snapshot.itemsOf w chain = .ok vs) : ∀ v ∈ vs, v.depth ≤ 3 * d + 2 := by
  intro v hv
  obtain ⟨e, he, hitem⟩ := exists_of_mem_forall₂ (forall₂_of_mapM h) hv
  obtain ⟨es, hes, hitem⟩ := exists_of_bind_ok hitem
  obtain rfl := Except.ok.inj hitem
  exact Value.depth_record_le (depth_entry_le hw (hchain e he).1 (hchain e he).2 hes)

theorem depth_coordinate {b : Block} {i : Nat} {c : Value}
    (hb : ∃ x y, b.position = [.float x, .float y]) (h : coordinate b i = .ok c) : c.depth = 0 := by
  obtain ⟨x, y, hxy⟩ := hb
  unfold coordinate at h
  split at h
  · rename_i v hv
    obtain rfl := Except.ok.inj h
    rw [hxy] at hv
    have hmem := List.mem_of_getElem? hv
    simp only [List.mem_cons, List.not_mem_nil, or_false] at hmem
    rcases hmem with rfl | rfl <;> rfl
  · cases h

/-- What is written of a chain nests no deeper for the blocks that follow its first one. -/
theorem depth_ofChain_le {d : Nat} {k : Key} {b : Block} {v : Value}
    (hw : ∀ k c, w.find? k = some c → Slight c) (hd : ∀ n, w.Plunges n → n ≤ d)
    (hk : b.id.toKey = .ok k) (hb : w.find? k = some b) (htop : b.isTop = true)
    (hpos : ∃ x y, b.position = [.float x, .float y]) (h : Snapshot.ofChain w b = .ok v) :
    v.depth ≤ 3 * d + 5 := by
  rw [Snapshot.ofChain_eq] at h
  obtain ⟨j, hj, h⟩ := exists_of_bind_ok h
  obtain rfl := Except.ok.inj (hk.symm.trans hj)
  obtain ⟨chain, hchain, h⟩ := exists_of_bind_ok h
  obtain ⟨entry, hentry, h⟩ := exists_of_bind_ok h
  obtain ⟨x, hx, h⟩ := exists_of_bind_ok h
  obtain ⟨y, hy, h⟩ := exists_of_bind_ok h
  obtain ⟨items, hitems, h⟩ := exists_of_bind_ok h
  obtain rfl := Except.ok.inj h
  have hstrung := strung_of_mem_chainFrom hchain fun c hc => .top hc (by
    rwa [← Option.some.inj (hb.symm.trans hc)])
  have hentries : ∀ e ∈ entry, e.2.depth ≤ 3 * d + 1 :=
    depth_entry_le hw (hw k b hb) (fun n hn => hd n ⟨b, .top hb htop, hn⟩) hentry
  have hfollowing : ∀ v ∈ items, v.depth ≤ 3 * d + 2 :=
    depth_itemsOf_le hw (fun e he => by
      have hc := hstrung e (List.mem_of_mem_tail he)
      obtain ⟨j, hj⟩ := hc.exists_find?
      exact ⟨hw j e.2 hj, fun n hn => hd n ⟨e.2, hc, hn⟩⟩) hitems
  exact depth_chained_le (fun e he => (hentries e he).trans (by omega)) (depth_coordinate hpos hx)
    (depth_coordinate hpos hy) hfollowing

/-- The document nests three levels deeper than what is written of its chains. -/
theorem depth_ofWorkspace_le {n : Nat} {tops : List Block} {document : Value}
    (htops : w.tops = .ok tops)
    (hchains : ∀ b ∈ tops, ∀ v, Snapshot.ofChain w b = .ok v → v.depth ≤ n)
    (h : Snapshot.ofWorkspace w = .ok document) : document.depth ≤ n + 3 := by
  unfold Snapshot.ofWorkspace at h
  obtain ⟨tops', htops', h⟩ := exists_of_bind_ok h
  obtain rfl := Except.ok.inj (htops.symm.trans htops')
  obtain ⟨chains, hmap, h⟩ := exists_of_bind_ok h
  split at h
  · obtain rfl := Except.ok.inj h
    exact Nat.le_trans (by decide) (Nat.le_add_left 3 n)
  obtain rfl := Except.ok.inj h
  refine depth_enclosed_le fun v hv => ?_
  obtain ⟨b, hb, hv⟩ := exists_of_mem_forall₂ (forall₂_of_mapM hmap) hv
  exact hchains b hb v hv

/-! ### Documents that are there -/

namespace Sound

variable (h : w.Sound)

include h

/-- What is written of a block is there, where fewer bindings lead from it down than may. -/
theorem exists_ofBlock {m : Nat} {x : String} {b : Block} (hb : w.block? x = some b)
    (hd : ∀ n, w.Descends b n → n < m) : ∃ es, Snapshot.ofBlock w m b = .ok es := by
  induction m generalizing x b with
  | zero => exact absurd (hd 0 .here) (Nat.not_lt_zero 0)
  | succ m ih =>
      obtain ⟨d, htype, hdeclared⟩ := h.exists_type hb
      obtain ⟨inputs, hinputs⟩ := exists_mapM_ok (f := Snapshot.inputAt w m) fun p hp => by
        obtain ⟨s, hs⟩ := exists_of_mem_plugs hp
        rw [h.plugs_eq hb htype] at hp
        obtain ⟨q, hq, rfl⟩ := List.mem_map.mp hp
        obtain ⟨c, hc⟩ := Option.isSome_iff_exists.mp (h.isSome_child (child?_of_mem_plugged hq))
        obtain ⟨es, hes⟩ := ih hc fun n hn =>
          Nat.lt_of_succ_lt_succ (hd (n + 1) (.down hs rfl hc hn))
        exact ⟨_, Snapshot.inputAt_eq rfl hc hes⟩
      refine ⟨Snapshot.parts b inputs, ?_⟩
      rw [Snapshot.ofBlock_succ, hdeclared]
      change (do
        let inputs ← (Snapshot.plugs b d).mapM (Snapshot.inputAt w m)
        return Snapshot.parts b inputs) = _
      rw [hinputs]
      rfl

/-- What is written of a chain is there. -/
theorem exists_ofChain {x : String} {b : Block} (hb : w.block? x = some b) (htop : b.isTop = true)
    (hpos : ∃ x y, b.position = [.float x, .float y])
    (hd : ∀ n, w.Plunges n → n < Snapshot.nestingLimit) : ∃ v, Snapshot.ofChain w b = .ok v := by
  obtain ⟨m, chain, -, hchain, hall⟩ := h.exists_chain (x := x) (by rw [hb]; rfl)
  have hstrung := strung_of_mem_chainFrom hchain fun c hc => .top hc (by
    rwa [← Option.some.inj (hb.symm.trans hc)])
  obtain ⟨entry, hentry⟩ := h.exists_ofBlock hb fun n hn => hd n ⟨b, .top hb htop, hn⟩
  obtain ⟨items, hitems⟩ : ∃ items, Snapshot.itemsOf w chain.tail = .ok items := by
    refine exists_mapM_ok fun e he => ?_
    have he := List.mem_of_mem_tail he
    obtain ⟨y, -, -, hy⟩ := exists_of_mem_forall₂ hall he
    obtain ⟨es, hes⟩ := h.exists_ofBlock hy fun n hn => hd n ⟨e.2, hstrung e he, hn⟩
    exact ⟨.record es, by rw [hes]; rfl⟩
  obtain ⟨cx, cy, hxy⟩ := hpos
  have hcx : coordinate b 0 = .ok (.float cx) := by rw [coordinate, hxy]; rfl
  have hcy : coordinate b 1 = .ok (.float cy) := by rw [coordinate, hxy]; rfl
  refine ⟨Snapshot.chained entry (.float cx) (.float cy) items, ?_⟩
  simp only [Snapshot.ofChain_eq, h.id_eq hb, Value.toKey_text, hcx, hcy, Bind.bind, Except.bind,
    hchain, hentry, hitems]
  rfl

/-- The document of a sound workspace is there, where fewer bindings lead down than may. -/
theorem exists_document (hp : w.Placed) (hd : ∀ n, w.Plunges n → n < Snapshot.nestingLimit) :
    ∃ document, Snapshot.ofWorkspace w = .ok document := by
  obtain ⟨tops, htops, hperm, -⟩ := h.exists_tops hp
  obtain ⟨vs, hvs⟩ := exists_mapM_ok (f := Snapshot.ofChain w) fun b hb => by
    obtain ⟨hmem, htop⟩ := List.mem_filter.mp (hperm.mem_iff.mp hb)
    obtain ⟨e, he, rfl⟩ := List.mem_map.mp hmem
    obtain ⟨x, -, hx⟩ := h.key_text (find?_of_mem_entries (k := e.1) he)
    exact h.exists_ofChain hx htop (hp x _ hx) hd
  simp only [Snapshot.ofWorkspace, htops, Bind.bind, Except.bind, hvs]
  split <;> exact ⟨_, rfl⟩

end Sound

end Workspace

/-! ### Documents of chronicles -/

namespace Chronicle

variable {σ : Type} {a : Audience σ} {v : Vocabulary} {w : Workspace}

/-- The blocks of a chronicle hold nothing but scalars, if their fields do. -/
theorem slight (h : Chronicle a v w) (ha : a.Docile)
    (hflat : ∀ k b, w.find? k = some b → ∀ e ∈ b.fields, e.2.depth = 0) {k : Key} {b : Block}
    (hb : w.find? k = some b) : Workspace.Slight b := by
  obtain ⟨d, hd⟩ := h.dressed ha hb
  obtain ⟨j, htype, -⟩ := exists_of_bind_ok hd.declared
  obtain ⟨i, hid, -⟩ := h.filed ha k b hb
  exact ⟨Value.depth_of_toKey htype, Value.depth_of_toKey hid, hflat k b hb⟩

theorem exists_position (h : Chronicle a v w) (ha : a.Docile) {k : Key} {b : Block}
    (hb : w.find? k = some b) : ∃ x y, b.position = [.float x, .float y] := by
  obtain ⟨d, hd⟩ := h.dressed ha hb
  exact hd.placed

/-- **A document nests no deeper for longer chains**: no more than eight levels, and three for each
binding on the longest way down from a block of a chain to what is plugged into another one, if all
fields hold scalars.  In a sound workspace the document is there, unless values are plugged into one
another more often than can be written. -/
theorem depth_document_le (h : Chronicle a v w) (ha : a.Docile)
    (hflat : ∀ k b, w.find? k = some b → ∀ e ∈ b.fields, e.2.depth = 0) {d : Nat}
    (hd : ∀ n, w.Plunges n → n ≤ d) :
    (∀ document, Snapshot.ofWorkspace w = .ok document → document.depth ≤ 8 + 3 * d) ∧
      (w.Sound → d < Snapshot.nestingLimit → ∃ document, Snapshot.ofWorkspace w = .ok document) := by
  constructor
  · intro document hdocument
    obtain ⟨tops, htops, hperm, -⟩ :=
      (h.filed ha).exists_tops fun k b hb _ => h.exists_position ha hb
    have hchains : ∀ b ∈ tops, ∀ v, Snapshot.ofChain w b = .ok v → v.depth ≤ 3 * d + 5 := by
      intro b hb v hv
      obtain ⟨hmem, htop⟩ := List.mem_filter.mp (hperm.mem_iff.mp hb)
      obtain ⟨e, he, rfl⟩ := List.mem_map.mp hmem
      have hfind := Workspace.find?_of_mem_entries (k := e.1) he
      -- the chain is walked from the id of the block, which is the key that it stands under
      obtain ⟨j, hj, hjk⟩ := h.filed ha _ _ hfind
      exact Workspace.depth_ofChain_le (fun _ _ hc => h.slight ha hflat hc) hd hj
        ((w.table.find?_congr hjk).trans hfind) htop (h.exists_position ha hfind) hv
    have := Workspace.depth_ofWorkspace_le htops hchains hdocument
    omega
  · intro hsound hlimit
    exact hsound.exists_document (fun x b hb => h.exists_position ha hb)
      fun n hn => Nat.lt_of_le_of_lt (hd n hn) hlimit

end Chronicle

/-! ### A chain that nests as deeply as it can -/

namespace Shelved

/-- A block that waits, in front of another one. -/
def leader : Block := { Severing.waiter "b" with next := .text "a" }

/-- The block behind it, which puts out a text that is plugged into it. -/
def follower : Block := { holder with inputs := [(.text "TEXT", .text "d")], parent := .text "b" }

/-- That text. -/
def token : Block := { textAt .one with parent := .text "a", parentInput := .text "TEXT" }

def queued : List (Key × Block) := [(.text "a", follower), (.text "d", token), (.text "b", leader)]

theorem exists_queued : ∃ w, History .journal .stock w ∧ w.Listed .stock 0 queued := by
  obtain ⟨w, hw, h⟩ := exists_laden .one
  obtain ⟨w, hw, h⟩ := hw.exists_waiting h (x := "b") (by decide) (by decide) rfl (.zero false)
  have hbelow : w.hangsFrom (.text "a") (.text "b") = .ok false :=
    h.hangsFrom_loose (b := Severing.waiter "b") rfl rfl rfl (by decide)
  exact hw.exists_command (.connectNext (.text "b") (.text "a")) (h.ends_connectNext_free
    (p := Severing.waiter "b") (c := { holder with inputs := [(.text "TEXT", .text "d")] }) rfl rfl
    (h.declarationOf_eq rfl rfl) rfl (h.declarationOf_eq rfl rfl) rfl hbelow rfl rfl rfl
    fun _ _ hu => hu)

variable {w : Workspace} (h : w.Listed .stock 0 queued)

include h

theorem eq_of_find? {k : Key} {b : Block} (hb : w.find? k = some b) :
    b = follower ∨ b = token ∨ b = leader := by
  obtain ⟨j, hmem, -⟩ := h.exists_mem hb
  simp only [queued, List.mem_cons, Prod.mk.injEq, List.not_mem_nil, or_false] at hmem
  exact hmem.imp And.right (.imp And.right And.right)

theorem scalar_queued {k : Key} {b : Block} (hb : w.find? k = some b) :
    ∀ e ∈ b.fields, e.2.depth = 0 := by
  obtain rfl | rfl | rfl := eq_of_find? h hb
  · exact fun e he => absurd he List.not_mem_nil
  · exact List.forall_mem_singleton.mpr rfl
  · exact List.forall_mem_singleton.mpr rfl

/-- Only the text is plugged into another block. -/
theorem plunges_queued_le {n : Nat} (hn : w.Plunges n) : n ≤ 1 := by
  obtain ⟨b, hb, hn⟩ := hn
  obtain ⟨k, hk⟩ := hb.exists_find?
  cases hn with
  | here => exact Nat.zero_le 1
  | @down _ c s k link n hs hlink hc hn =>
      obtain rfl : link = .text "d" := by
        obtain rfl | rfl | rfl := eq_of_find? h hk
        · exact (Prod.mk.inj (List.mem_singleton.mp hs)).2
        · cases hs
        · cases hs
      obtain rfl := Except.ok.inj hlink
      obtain rfl := Option.some.inj ((h.find?_eq (.text "d")).symm.trans hc)
      cases hn with
      | here => exact Nat.le_refl 1
      | down hs => cases hs

theorem document_queued : Snapshot.ofWorkspace w =
    .ok (.record [("blocks", .record [("languageVersion", .int Snapshot.version), ("blocks", .list [
      Snapshot.chained (Snapshot.parts leader []) (.float (.zero false)) (.float (.zero false))
        [.record (Snapshot.parts follower [(.text "TEXT",
          .record [("block", .record (Snapshot.parts token []))])])]])])]) := by
  have htops : w.tops = .ok [leader] := by
    have hspots : w.spots = .ok [⟨leader, .float (.zero false), .float (.zero false), 2⟩] := by
      rw [Workspace.spots, h.entries]
      rfl
    simp only [Workspace.tops, hspots, Bind.bind, Except.bind, Workspace.sort_spot]
    rfl
  have hchain : w.chain (.text "b") = .ok [(.text "b", leader), (.text "a", follower)] := by
    rw [Workspace.chain, h.size_eq]
    simp only [queued, List.length_cons, List.length_nil, Workspace.chainFrom, h.find?_eq]
    rfl
  have htoken (n : Nat) : Snapshot.ofBlock w (n + 1) token = .ok (Snapshot.parts token []) := by
    rw [Snapshot.ofBlock_succ, h.declarationOf_eq (d := Vocabulary.text) rfl rfl]
    rfl
  have hinput (n : Nat) : Snapshot.inputAt w (n + 1) (.text "TEXT", .text "d") =
      .ok (.text "TEXT", .record [("block", .record (Snapshot.parts token []))]) :=
    Snapshot.inputAt_eq rfl (h.find?_eq _) (htoken n)
  have hfollower (n : Nat) : Snapshot.ofBlock w (n + 2) follower =
      .ok (Snapshot.parts follower [(.text "TEXT",
        .record [("block", .record (Snapshot.parts token []))])]) := by
    have hplugs : Snapshot.plugs follower Vocabulary.addText = [(.text "TEXT", .text "d")] := rfl
    rw [Snapshot.ofBlock_succ, h.declarationOf_eq (d := Vocabulary.addText) rfl rfl]
    simp only [Bind.bind, Except.bind, hplugs, List.mapM_cons, List.mapM_nil, hinput]
    rfl
  have hleader (n : Nat) : Snapshot.ofBlock w (n + 1) leader = .ok (Snapshot.parts leader []) := by
    rw [Snapshot.ofBlock_succ, h.declarationOf_eq (d := Vocabulary.wait) rfl rfl]
    rfl
  have hid : leader.id.toKey = .ok (.text "b") := rfl
  rw [Snapshot.ofWorkspace, htops]
  simp only [Bind.bind, Except.bind, List.mapM_cons, List.mapM_nil, Snapshot.ofChain_eq, hid, hchain,
    Snapshot.nestingLimit, hleader, Snapshot.itemsOf, List.tail_cons, hfollower]
  rfl

end Shelved

/-- A chain of two blocks with a text plugged into the second one nests as deeply as it can. -/
theorem Chronicle.depth_document_le_queued : ∃ (w : Workspace) (document : Value),
    Chronicle .journal .stock w ∧ (∀ n, w.Plunges n → n ≤ 1) ∧
      Snapshot.ofWorkspace w = .ok document ∧ document.depth = 11 ∧ document.depth ≤ 8 + 3 * 1 := by
  obtain ⟨w, hw, h⟩ := Shelved.exists_queued
  obtain ⟨hdepth, hthere⟩ := hw.chronicle.depth_document_le Audience.docile_journal
    (fun _ _ => Shelved.scalar_queued h) fun _ => Shelved.plunges_queued_le h
  obtain ⟨document, hdocument⟩ :=
    hthere (hw.sound Audience.tame_journal Vocabulary.worded_stock) (by decide)
  have hle := hdepth document hdocument
  obtain rfl := Except.ok.inj ((Shelved.document_queued h).symm.trans hdocument)
  exact ⟨w, _, hw.chronicle, fun _ => Shelved.plunges_queued_le h, hdocument, by decide, hle⟩

end Blockwork
