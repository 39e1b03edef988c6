import Blockwork.Proofs.Loading
import Blockwork.Proofs.Mirroring
import Blockwork.Proofs.Singles

/-!
# Storing and loading

A workspace that is stored comes back: loading the stored text into any other workspace of the same
vocabulary empties that one and makes it mirror the workspace that was stored, with its blocks at
the top in the same order (`History.comes_back`).  The audience is told of nothing but the end of
loading.

What is needed is that sockets have texts as names, that no blocks both give a value and are
followed by others, and that the fields take the values that they hold.  A document that is written
is assumed to be read back as it was.
-/

namespace Blockwork

variable {σ τ α : Type}

theorem Json.eq_compact_of_line {v : Value} {text : String} (h : line v = .ok text) :
    text = compact v := by
  unfold line write at h
  split at h
  · cases h
  · exact (Except.ok.inj h).symm

/-! ### Slots in memory -/

namespace Host

theorem memory_setMemory {h : Host} {number : Nat} (hn : number < h.memories.length)
    (slots : List (Key × String)) : (h.setMemory number slots).memory number = slots := by
  rw [memory, setMemory, List.getElem?_set_self hn]
  rfl

end Host

namespace Archive

variable {a : Audience σ} {archive : Archive} {text : String} {s : Scene σ}

theorem ends_save {host : Host} {good : String → Scene σ → Prop} {bad : Error → Scene σ → Prop}
    (ht : textOf s.workspace = .ok text) (hp : archive.slots.put archive.key text s.host = .ok () host)
    (hg : good text { s with host }) : Ends archive.save s good bad := by
  refine Ends.bind (Ends.get ?_)
  rw [ht]
  exact Ends.bind (Act.ends_onHost ((Ends.of_ok hp).mpr (Ends.pure hg)))

end Archive

/-! ### Loading what was stored -/

namespace Workspace

variable {g w : Workspace} {n : Nat}

/-- Nothing is copied yet. -/
theorem Copies.start (hv : g.vocabulary.Worded) (hvw : w.vocabulary = g.vocabulary)
    (he : ∀ k, w.find? k = none) : Copies g w.muted w [] fun _ => False where
  sound := Sound.of_empty (hvw ▸ hv) he
  vocabulary := hvw
  muted := rfl
  keys := by
    rw [List.map_nil, List.map_eq_nil_iff, List.eq_nil_iff_forall_not_mem]
    rintro ⟨k, b⟩ hm
    have := find?_of_mem_entries hm
    rw [he] at this
    cases this
  copied x c hx := by rw [block?, he] at hx; cases hx
  seats x q := by simp [seat?, block?, he]

/-- Whether a workspace mirrors another one, with the same blocks at the top in the same order and
places, and with the same document. -/
structure ComesBack (w g : Workspace) : Prop where
  mirrors : w.Mirrors g
  tops : ∃ us ts, w.tops = .ok us ∧ g.tops = .ok ts ∧
    us.map (fun b => (b.id, b.position)) = ts.map fun b => (b.id, b.position)
  document : ∃ document, Snapshot.ofWorkspace w = .ok document ∧
    Snapshot.ofWorkspace g = .ok document

/-- Where there is just one block, what its fields hold is all that they have to settle. -/
theorem Lone.settled {x : String} {b : Block} (h : w.Lone x b) {d : Declaration}
    (hd : w.declarationOf b = .ok d) (hb : d.Settled b.fields) (y : String) (c : Block)
    (e : Declaration) (hc : w.block? y = some c) (he : w.declarationOf c = .ok e) :
    e.Settled c.fields := by
  obtain rfl := h.eq_of_block? hc
  obtain rfl := Except.ok.inj (hd.symm.trans he)
  exact hb

/-- Where there is just one block, its coordinates are all that there are. -/
theorem Lone.numbers {x : String} {b : Block} (h : w.Lone x b)
    (hb : ∀ v ∈ b.position, v.isNaN = false) (c : Block) (hc : c ∈ w.blocks) :
    ∀ v ∈ c.position, v.isNaN = false := h.eq_of_mem_blocks hc ▸ hb

end Workspace

section

variable {a : Audience σ} {g : Workspace} {n : Nat} {document : Value} {text : String}

/-- **What is built from the document of a workspace, where no block is, is that workspace.** -/
theorem Workspace.Storable.ends_rebuild (hg : g.Storable n) (hn : n ≤ Snapshot.nestingLimit)
    (hnan : ∀ b ∈ g.blocks, ∀ x ∈ b.position, x.isNaN = false)
    (hd : Snapshot.ofWorkspace g = .ok document) {s : Scene σ}
    (hv : s.workspace.vocabulary = g.vocabulary) (he : ∀ k, s.workspace.find? k = none)
    (hm : s.workspace.muted ≠ 0) {good : List Key → Scene σ → Prop} {bad : Error → Scene σ → Prop}
    (hgood : ∀ ks w, (∀ muted, ({ w with muted } : Workspace).ComesBack g) →
      w.muted = s.workspace.muted → good ks { s with workspace := w }) :
    Ends (Snapshot.rebuild a document) s good bad := by
  obtain ⟨ts, hts, hperm, hsorted⟩ := hg.sound.exists_tops hg.placed
  obtain ⟨xs, hxs, hnd, hroots, hall⟩ := hg.sound.exists_topmost hperm
  have hmem : ∀ b ∈ ts, ∃ x, g.block? x = some b := fun b hb => by
    obtain ⟨x, -, hx⟩ := exists_of_mem_forall₂ hxs hb
    exact ⟨x, hx.1⟩
  have hnan' : ∀ b ∈ ts, ∀ x ∈ b.position, x.isNaN = false := fun b hb =>
    hnan b (List.mem_of_mem_filter (hperm.mem_iff.mp hb))
  obtain ⟨document', strands, hd', -, houtline, hshows⟩ := hg.exists_outline hn hts hmem
  obtain rfl := Except.ok.inj (hd.symm.trans hd')
  have hentries : List.Forall₂
      (fun x strand => ∃ b, g.block? x = some b ∧ g.ShowsStrand n b strand) xs strands := by
    refine (forall₂_of_common hxs.flip hshows).imp ?_
    rintro x strand ⟨b, ⟨hb, -⟩, hs⟩
    exact ⟨b, hb, hs⟩
  unfold Snapshot.rebuild
  rw [houtline]
  refine Act.ends_mapError (Snapshot.ends_growAll hg hm hentries hroots hnd
    (.start hg.vocabulary.worded hv he) (fun _ hz => nomatch hz) fun ks w l hw hl horder => ?_)
  rw [List.nil_append] at hw
  have hdone : ∀ x, (g.block? x).isSome → x ∈ l := fun x hx => (hl x).mpr (hall x hx)
  have hhung : ∀ x q, g.seat? x = some q → False ∨ x ∈ l := fun x q hq => by
    obtain ⟨b, hb, -⟩ := Workspace.seat?_eq_some.mp hq
    exact .inr (hdone x (by rw [hb]; rfl))
  obtain ⟨us, hus, hsame⟩ := hw.exists_tops hg.sound hhung hxs horder hnan' (hsorted hnan')
  have hmirrors := hw.mirrors hg.sound hdone hhung
  refine hgood ks w (fun muted => ?_) hw.muted
  have hquiet : ({ w with muted } : Workspace).Mirrors g := ⟨hmirrors.vocabulary, hmirrors.blocks⟩
  refine ⟨hquiet, ⟨us, ts, hus, hts, ?_⟩, document, ?_, hd⟩
  · exact (map_eq_of_forall₂ hsame fun c b h => by rw [h.1.id, h.2.1]).symm
  · rw [hquiet.document hus hts hsame, hd]

/-- **Loading the stored text of a workspace brings the workspace back.** -/
theorem Workspace.Storable.ends_load (hg : g.Storable n) (hn : n ≤ Snapshot.nestingLimit)
    (hnan : ∀ b ∈ g.blocks, ∀ x ∈ b.position, x.isNaN = false)
    (hd : Snapshot.ofWorkspace g = .ok document) (hread : Json.read text = .ok document)
    {s : Scene (List Change)} (hs : s.workspace.Sound) (hp : s.workspace.Placed)
    (hv : s.workspace.vocabulary = g.vocabulary) (hm : s.workspace.muted = 0) {archive : Archive}
    {host : Host} (hf : archive.slots.get archive.key s.host = .ok (some text) host) :
    Ends (archive.load .journal) s (fun restored t => restored = true ∧ t.workspace.ComesBack g ∧
      ∃ c : Change, c.kind = .finishedLoading ∧ t.audience = s.audience ++ [c])
      fun _ _ => False := by
  refine Archive.ends_load_found hf (Act.ends_quietly (Archive.ends_replace ?_))
  have hquiet : ({ s with host } : Scene (List Change)).workspace.muted + 1 = 1 := by rw [hm]
  rw [hquiet]
  refine Act.ends_clear_muted (hs.gesture s.workspace.dragging 1) hp Nat.one_ne_zero
    fun w he hvw hmw => ?_
  unfold Archive.restore
  rw [hread]
  refine Ends.bind (hg.ends_rebuild hn hnan hd (hvw.trans hv) he (hmw ▸ Nat.one_ne_zero)
    fun ks w' hback hmw' => Ends.pure ?_)
  rw [if_pos rfl]
  refine Ends.bind (Ends.get (Ends.bind (Ends.modify (Ends.bind (Ends.bind (Ends.get ?_))))))
  have htold : w'.muted - 1 = 0 := congrArg (· - 1) (hmw'.trans hmw)
  dsimp only [Scene.hushed]
  rw [if_pos htold]
  exact Ends.bind (Ends.modify (Ends.pure (Ends.pure ⟨rfl, hback _, _, rfl, rfl⟩)))

/-- What is stored in memory comes back into every workspace of the same vocabulary. -/
theorem Workspace.Storable.exists_load (hg : g.Storable n)
    (hnan : ∀ c ∈ g.blocks, ∀ x ∈ c.position, x.isNaN = false)
    (hdepth : 3 * n + 5 ≤ Json.depthLimit)
    (hjson : ∀ document text, Snapshot.ofWorkspace g = .ok document →
      Json.line document = .ok text → Json.read text = .ok document)
    {number : Nat} {key : Value} {k : Key} (hkey : key.toKey = .ok k) {s : Scene σ}
    (hs : s.workspace = g) (hnumber : number < s.host.memories.length) :
    ∃ text t, (Archive.mk (.memory number) key).save s = .ok text t ∧ t.workspace = g ∧
      t.audience = s.audience ∧ ∀ r : Scene (List Change), r.workspace.Sound →
        r.workspace.Placed → r.workspace.vocabulary = g.vocabulary → r.workspace.muted = 0 →
        r.host = t.host → ∃ u, (Archive.mk (.memory number) key).load .journal r = .ok true u ∧
          u.workspace.ComesBack g ∧
          ∃ c : Change, c.kind = .finishedLoading ∧ u.audience = r.audience ++ [c] := by
  have hlimit : n ≤ Snapshot.nestingLimit := by
    simp only [Json.depthLimit, Snapshot.nestingLimit] at hdepth ⊢
    omega
  obtain ⟨ts, hts, hperm, -⟩ := hg.sound.exists_tops hg.placed
  obtain ⟨xs, hxs, -⟩ := hg.sound.exists_topmost hperm
  obtain ⟨document, -, hd, hdeep, -⟩ := hg.exists_outline hlimit hts fun c hc => by
    obtain ⟨x, -, hx⟩ := exists_of_mem_forall₂ hxs hc
    exact ⟨x, hx.1⟩
  let text := Json.compact document
  have hline : Json.line document = .ok text := if_neg (Nat.not_lt.mpr (hdeep.trans hdepth))
  have htext : Archive.textOf s.workspace = .ok text := by
    rw [hs, Archive.textOf, hd]
    exact hline
  let archive : Archive := ⟨.memory number, key⟩
  let host := s.host.setMemory number (Entries.put (s.host.memory number) k text)
  have hput : archive.slots.put archive.key text s.host = .ok () host := by
    simp only [archive, Slots.put, hkey]
    rfl
  have hsave : Ends archive.save s (fun x t => x = text ∧ t = { s with host }) fun _ _ => False :=
    Archive.ends_save htext hput ⟨rfl, rfl⟩
  obtain ⟨_, t, ht, rfl, rfl⟩ := hsave.exists_ok
  refine ⟨text, _, ht, hs, rfl, fun r hr hplaced hv hm hrh => ?_⟩
  have hfound : archive.slots.get archive.key r.host = .ok (some text) r.host := by
    have hmemory : r.host.memory number = Entries.put (s.host.memory number) k text := by
      rw [hrh]
      exact Host.memory_setMemory hnumber _
    simp only [archive, Slots.get, hkey, hmemory, Entries.get?_put, BEq.rfl, if_pos]
  have hload := hg.ends_load hlimit hnan hd (hjson _ _ hd hline) hr hplaced hv hm hfound
  obtain ⟨_, u, hu, rfl, hback, hheard⟩ := hload.exists_ok
  exact ⟨u, hu, hback, hheard⟩

end

/-! ### Histories -/

namespace History

variable {a : Audience σ} {b : Audience τ} {v : Vocabulary} {g h : Workspace} {n : Nat}

/-- A workspace of a history can be stored if its fields take the values that they hold. -/
theorem storable (ha : a.Tame) (hv : v.Storable) (hg : History a v g)
    (hsettled : ∀ x c d, g.block? x = some c → g.declarationOf c = .ok d → d.Settled c.fields)
    (hn : ∀ x, (g.block? x).isSome → g.Nests n x) : g.Storable n := by
  have hs := hg.sound ha hv.worded
  have hvg := hg.vocabulary ha hv.worded
  have hstems := hg.holds ha hv.worded hv.orStock.worded.persistent
  have hd : ∀ {x c}, g.block? x = some c → ∃ d, g.declarationOf c = .ok d ∧ c.Stems v.orStock d :=
    fun {x c} hc => by
      obtain ⟨d, hd⟩ := hstems x c hc
      refine ⟨d, ?_, hd⟩
      rw [Workspace.declarationOf, hvg]
      exact hd.declared
  refine ⟨hs, hvg ▸ hv.orStock, fun x c hc => ?_, fun x c d hc hdc => ?_, fun x c hc e he => ?_, hn⟩
  · obtain ⟨d, -, hd⟩ := hd hc
    exact hd.placed
  · obtain ⟨d', hdc', hd⟩ := hd hc
    obtain rfl := Except.ok.inj (hdc.symm.trans hdc')
    exact (hsettled x c d hc hdc).filled_eq hv.orStock (Vocabulary.mem_of_lookup hd.declared) hd.fills
  · obtain ⟨d, hdc, hd⟩ := hd hc
    obtain ⟨s, hs, hk, -⟩ := hd.fills.values e.1 e.2 he
    have hmem := Vocabulary.mem_of_lookup hd.declared
    obtain ⟨t, ht⟩ := hv.orStock.worded d hmem s (List.mem_of_mem_filter hs)
    have hkey : e.1 = .text t := by
      rw [ht] at hk
      exact (Option.some.inj hk).symm
    have hfield : d.field? (.ofKey e.1) = some s := by
      rw [hkey]
      exact Declaration.field?_eq_some (hv.orStock.distinct d hmem) hs ht
    exact Socket.depth_coerce (List.mem_filter.mp hs).2 (hsettled x c d hc hdc e.1 e.2 s he hfield)

/-- **What is stored comes back.**  A workspace is stored if its values nest within the limits, no
coordinate is other than a number, and its fields take the values that they hold; and whatever a
workspace of the same vocabulary holds, loading makes it the one that was stored. -/
theorem comes_back (ha : a.Tame) (hb : b.Tame) (ho : b.Open) (hv : v.Storable)
    (hg : History a v g) (hh : History b v h)
    (hsettled : ∀ x c d, g.block? x = some c → g.declarationOf c = .ok d → d.Settled c.fields)
    (hnan : ∀ c ∈ g.blocks, ∀ x ∈ c.position, x.isNaN = false)
    (hn : ∀ x, (g.block? x).isSome → g.Nests n x) (hdepth : 3 * n + 5 ≤ Json.depthLimit)
    (hjson : ∀ document text, Snapshot.ofWorkspace g = .ok document →
      Json.line document = .ok text → Json.read text = .ok document)
    {number : Nat} {key : Value} {k : Key} (hkey : key.toKey = .ok k) {s : Scene σ}
    (hs : s.workspace = g) (hnumber : number < s.host.memories.length) :
    ∃ text t, (Archive.mk (.memory number) key).save s = .ok text t ∧ t.workspace = g ∧
      t.audience = s.audience ∧ ∀ r : Scene (List Change), r.workspace = h → r.host = t.host →
        ∃ u, (Archive.mk (.memory number) key).load .journal r = .ok true u ∧
          u.workspace.ComesBack g ∧
          ∃ c : Change, c.kind = .finishedLoading ∧ u.audience = r.audience ++ [c] := by
  obtain ⟨text, t, hsave, ht, hheard, hload⟩ := (hg.storable ha hv hsettled hn).exists_load hnan
    hdepth hjson hkey hs hnumber
  refine ⟨text, t, hsave, ht, hheard, fun r hr hrh => ?_⟩
  have hvr : r.workspace.vocabulary = g.vocabulary := by
    rw [hr, hh.vocabulary hb hv.worded, hg.vocabulary ha hv.worded]
  exact hload r (hr ▸ hh.sound hb hv.worded) (hr ▸ hh.placed hb hv.worded) hvr (hr ▸ hh.unmuted ho)
    hrh

/-- The document of one text that is turned off. -/
def wordDocument : Value :=
  .record [("blocks", .record [("languageVersion", .int 0), ("blocks", .list [.record
    [("type", .text "text"), ("id", .text "word"), ("enabled", .bool false),
      ("fields", .dict [(.text "TEXT", .text "hi")]), ("x", .float (.zero false)),
      ("y", .float (.zero false))]])])]

set_option maxRecDepth 4000 in
theorem read_wordDocument : Json.read (Json.compact wordDocument) = .ok wordDocument := by cbv

theorem isNaN_origin : ∀ v ∈ [Value.float (.zero false), .float (.zero false)],
    v.isNaN = false := by decide

/-- There is a workspace with a text, turned off in one of two ways, that can be stored. -/
theorem exists_word {enabled : Value} (he : enabled = .bool false ∨ enabled = .null) :
    ∃ g b, History .journal .stock g ∧ g.block? "word" = some b ∧ b.enabled = enabled ∧
      (∀ x c d, g.block? x = some c → g.declarationOf c = .ok d → d.Settled c.fields) ∧
      (∀ c ∈ g.blocks, ∀ x ∈ c.position, x.isNaN = false) ∧
      (∀ x, (g.block? x).isSome → g.Nests 1 x) ∧
      ∀ document text, Snapshot.ofWorkspace g = .ok document → Json.line document = .ok text →
        Json.read text = .ok document := by
  have hne : (Value.bool true).same enabled = false := by rcases he with rfl | rfl <;> rfl
  have hdeclared : (do (Workspace.new .stock 0).vocabulary.get (← (Value.text "text").toKey)) =
      .ok Vocabulary.text := rfl
  have hfilled : Edit.filled (.text "text") Vocabulary.text [(.text "TEXT", .text "hi")] =
      .ok [(.text "TEXT", .text "hi")] := rfl
  have hword : "word" ≠ "" ∧ "word".length < 5 := by decide
  obtain ⟨g, hg, hvg, hlone⟩ :=
    exists_lone_switched (.zero false) (.zero false) hword.1 hword.2 hdeclared hfilled hne
  have hof {c : Block} (hc : c.type = .text "text") :
      g.declarationOf c = .ok Vocabulary.text := by
    rw [Workspace.declarationOf, hvg, hc]
    exact hdeclared
  have hsettled : Vocabulary.text.Settled [(.text "TEXT", .text "hi")] := fun k u s hm hs => by
    obtain ⟨rfl, rfl⟩ := Prod.mk.inj (List.mem_singleton.mp hm)
    cases hs
    rfl
  refine ⟨g, _, hg, hlone.block?_self, rfl, hlone.settled (hof rfl) hsettled,
    hlone.numbers isNaN_origin, fun x _ => hlone.nests, fun document text hd ht => ?_⟩
  rw [(hlone.sole rfl).document rfl (hof rfl)] at hd
  cases hd
  rw [Json.eq_compact_of_line ht]
  rcases he with rfl | rfl
  · exact read_wordDocument
  · exact read_wordDocument

/-- A text that is turned off is stored, and comes back into a workspace without blocks. -/
theorem comes_back_text_off : ∃ (g h : Workspace) (n : Nat) (s : Scene (List Change)),
    History .journal .stock g ∧ History .journal .stock h ∧ s.workspace = g ∧
      (g.block? "word").isSome ∧ (∀ x, (g.block? x).isSome → g.Nests n x) ∧
      3 * n + 5 ≤ Json.depthLimit ∧ 0 < s.host.memories.length ∧
      ∃ text t, (Archive.mk (.memory 0) (.text defaultKey)).save s = .ok text t ∧
        ∀ r : Scene (List Change), r.workspace = h → r.host = t.host →
          ∃ u, (Archive.mk (.memory 0) (.text defaultKey)).load .journal r = .ok true u ∧
            u.workspace.ComesBack g := by
  obtain ⟨g, b, hg, hb, -, hsettled, hnan, hn, hjson⟩ := exists_word (.inl rfl)
  let s : Scene (List Change) := { workspace := g, host := { memories := [[]] }, audience := [] }
  have hh : History .journal .stock (Workspace.new .stock 7) := .new 7
  have hkey : (Value.text defaultKey).toKey = .ok (.text defaultKey) := rfl
  have hslots : 0 < s.host.memories.length := Nat.one_pos
  obtain ⟨text, t, hsave, -, -, hload⟩ := comes_back Audience.tame_journal Audience.tame_journal
    Audience.open_journal Vocabulary.storable_stock hg hh hsettled hnan hn (by decide) hjson hkey
    (s := s) rfl hslots
  refine ⟨g, _, 1, s, hg, hh, rfl, by rw [hb]; rfl, hn, by decide, hslots, text, t, hsave, ?_⟩
  intro r hr hrh
  obtain ⟨u, hu, hback, -⟩ := hload r hr hrh
  exact ⟨u, hu, hback⟩

end History

/-! ### What does not come back -/

/-- A block is not created with fields that it does not have. -/
theorem Edit.ends_create_unfilled {w : Workspace} {type position : Value} {x : String}
    {given : List (Key × Value)} {d : Declaration} {e : Error}
    (hd : (do w.vocabulary.get (← type.toKey)) = .ok d) (hnone : w.block? x = none)
    (hf : filled type d given = .error e) {good : Key × List Notice → Workspace → Prop}
    {bad : Error → Workspace → Prop} (hb : bad e w) :
    Ends (create type (.text x) position given) w good bad := by
  obtain ⟨k, hk, hget⟩ := exists_of_bind_ok hd
  unfold create
  refine Ends.bind (Ends.get (Ends.bind (ends_ofExcept_ok hk (Ends.bind (ends_ofExcept_ok hget ?_)))))
  refine Ends.bind (ends_claimId (.inr ⟨x, rfl⟩) (fun _ hu => absurd (.inr hnone) hu) ?_)
  intro asked _ _
  rw [fillFields_eq, hf]
  exact Ends.bind (ends_ofExcept (fun _ h => nomatch h) fun e' he => Except.error.inj he ▸ hb)

namespace Storing

/-- A type with a field that has a number as its name. -/
def numbered : Declaration where
  type := .text "note"
  message := "%1"
  sockets := [{ name := .int 5, kind := .text, default := .text "" }]
  colour := Vocabulary.text.colour

/-- The document of one block of it, with the name of the field as it is written or read. -/
def noteDocument (name : Key) : Value :=
  .record [("blocks", .record [("languageVersion", .int 0), ("blocks", .list [.record
    [("type", .text "note"), ("id", .text "memo"), ("fields", .dict [(name, .text "")]),
      ("x", .float (.zero false)), ("y", .float (.zero false))]])])]

set_option maxRecDepth 4000 in
theorem read_noteDocument :
    Json.read (Json.compact (noteDocument (.int 5))) = .ok (noteDocument (.text "5")) := by cbv

/-- The vocabulary of that type. -/
def numberedVocabulary : Vocabulary := ⟨[numbered], by decide⟩

/-- A workspace that can be stored is stored in memory and loaded into another one of the same
vocabulary, with a result. -/
structure Relayed (v : Vocabulary) (restored : Bool) (s u : Scene (List Change)) : Prop where
  parted : ∀ d ∈ v.declarations, d.isValue = true → d.next = false
  history : History .journal v s.workspace
  settled : ∀ x c d, s.workspace.block? x = some c → s.workspace.declarationOf c = .ok d →
    d.Settled c.fields
  numbers : ∀ c ∈ s.workspace.blocks, ∀ x ∈ c.position, x.isNaN = false
  nests : ∃ n, 3 * n + 5 ≤ Json.depthLimit ∧
    ∀ x, (s.workspace.block? x).isSome → s.workspace.Nests n x
  relayed : ∃ (text : String) (t r : Scene (List Change)),
    (Archive.mk (.memory 0) (.text defaultKey)).save s = .ok text t ∧
      History .journal v r.workspace ∧ r.host = t.host ∧
        (Archive.mk (.memory 0) (.text defaultKey)).load .journal r = .ok restored u

/-- The field of that block is read back under a name that the type does not have, and nothing is
loaded. -/
theorem ends_load_note {archive : Archive} {r : Scene (List Change)} {host : Host}
    (hr : r.workspace = Workspace.new numberedVocabulary 0)
    (hf : archive.slots.get archive.key r.host =
      .ok (some (Json.compact (noteDocument (.int 5)))) host) :
    Ends (archive.load .journal) r (fun restored _ => restored = false) fun _ _ => False := by
  obtain ⟨w, _, _⟩ := r
  obtain rfl : w = _ := hr
  refine Archive.ends_load_found hf (Act.ends_quietly
    (Archive.ends_replace (Act.ends_clear_topless rfl ?_)))
  unfold Archive.restore
  rw [read_noteDocument]
  refine Ends.bind (Act.ends_mapError ?_)
  refine Ends.bind (Ends.bind (Ends.bind (Ends.bind (Ends.bind (Act.ends_edit ?_)))))
  let quiet : Workspace := { Workspace.new numberedVocabulary 0 with muted := 1 }
  have hget : (do quiet.vocabulary.get (← (Value.text "note").toKey)) = .ok numbered := rfl
  have hnone : quiet.block? "memo" = none := Table.find?_eq _ _
  have hunfilled : Edit.filled (.text "note") numbered [(.text "5", .text "")] =
    .error (.violation (.noSuchField (.text "note") (.text "5"))) := rfl
  change Ends (Edit.create (.text "note") (.text "memo") Snapshot.origin [(.text "5", .text "")])
    quiet _ _
  refine Edit.ends_create_unfilled hget hnone hunfilled ?_
  have hdamage : Archive.isUnreadable (Snapshot.asDamage
    (.violation (.noSuchField (.text "note") (.text "5")))) = true := rfl
  rw [if_pos hdamage]
  exact Ends.bind (Ends.modify (Ends.bind (Act.ends_clear_topless rfl (Ends.pure rfl))))

/-- A field that has a number as its name has a text as its name when it is read back, and what
was stored is lost. -/
theorem exists_lost : ∃ s u, Relayed numberedVocabulary false s u := by
  let v := numberedVocabulary
  have hdeclared : (do (Workspace.new v 0).vocabulary.get (← (Value.text "note").toKey)) =
      .ok numbered := rfl
  have hfilled : Edit.filled (.text "note") numbered [] = .ok [(.int 5, .text "")] := rfl
  have hmemo : "memo" ≠ "" ∧ "memo".length < 5 := by decide
  obtain ⟨g, hg, hvg, hlone⟩ :=
    History.exists_lone (.zero false) (.zero false) hmemo.1 hmemo.2 hdeclared hfilled
  have hof {c : Block} (hc : c.type = .text "note") : g.declarationOf c = .ok numbered := by
    rw [Workspace.declarationOf, hvg, hc]
    exact hdeclared
  let text := Json.compact (noteDocument (.int 5))
  let archive : Archive := ⟨.memory 0, .text defaultKey⟩
  let s : Scene (List Change) := { workspace := g, host := { memories := [[]] }, audience := [] }
  let host : Host := { memories := [[(.text defaultKey, text)]] }
  let r : Scene (List Change) := { workspace := Workspace.new v 0, host, audience := [] }
  have htext : Archive.textOf g = .ok text := by
    rw [Archive.textOf, (hlone.sole rfl).document rfl (hof rfl)]
    rfl
  have hsave : Ends archive.save s (fun x t => x = text ∧ t = { s with host }) fun _ _ => False :=
    Archive.ends_save htext rfl ⟨rfl, rfl⟩
  have hfound : archive.slots.get archive.key r.host = .ok (some text) host := rfl
  obtain ⟨_, t, ht, rfl, rfl⟩ := hsave.exists_ok
  obtain ⟨_, u, hu, rfl⟩ := (ends_load_note rfl hfound).exists_ok
  have hsettled : numbered.Settled [(.int 5, .text "")] := fun k u s hm hs => by
    obtain ⟨rfl, rfl⟩ := Prod.mk.inj (List.mem_singleton.mp hm)
    cases hs
    rfl
  exact ⟨s, u, by decide, hg, hlone.settled (hof rfl) hsettled,
    hlone.numbers History.isNaN_origin, ⟨1, by decide, fun x _ => hlone.nests⟩, text, _, r, ht,
    .new 0, rfl, hu⟩

/-- Not every workspace comes back, and not every block that is turned off comes back with the value
that turned it off. -/
theorem not_everything_comes_back : (∃ s u, Relayed numberedVocabulary false s u) ∧
    ∃ s u b c, Relayed .stock true s u ∧ s.workspace.block? "word" = some b ∧
      u.workspace.block? "word" = some c ∧ b.enabled = .null ∧ c.enabled = .bool false := by
  refine ⟨exists_lost, ?_⟩
  obtain ⟨g, b, hg, hb, hoff, hsettled, hnan, hn, hjson⟩ := History.exists_word (.inr rfl)
  let s : Scene (List Change) := { workspace := g, host := { memories := [[]] }, audience := [] }
  have hkey : (Value.text defaultKey).toKey = .ok (.text defaultKey) := rfl
  have hslots : 0 < s.host.memories.length := Nat.one_pos
  have hv := Vocabulary.storable_stock
  have hvg := hg.vocabulary Audience.tame_journal hv.worded
  obtain ⟨text, t, hsave, -, -, hload⟩ := (hg.storable Audience.tame_journal hv hsettled
    hn).exists_load hnan (by decide) hjson hkey (s := s) rfl hslots
  let r : Scene (List Change) := { workspace := .new .stock 7, host := t.host, audience := [] }
  have hh : History .journal .stock r.workspace := .new 7
  obtain ⟨u, hu, hback, -⟩ := hload r (hh.sound Audience.tame_journal hv.worded)
    (hh.placed Audience.tame_journal hv.worded) hvg.symm rfl rfl
  obtain ⟨c, hc, hbc⟩ := hback.mirrors.exists_block hb
  refine ⟨s, u, b, c, ⟨by decide, hg, hsettled, hnan, ⟨1, by decide, hn⟩, text, t, r, hsave, hh, rfl,
    hu⟩, hb, hc, hoff, ?_⟩
  rw [hbc.enabled, Block.isEnabled, hoff]
  rfl

end Storing

end Blockwork
