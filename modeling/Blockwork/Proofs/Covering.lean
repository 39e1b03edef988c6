import Blockwork.Proofs.Emptying
import Blockwork.Proofs.Outlining
import Blockwork.Proofs.Rebuilding

/-!
# What documents cover

The document of a workspace gives the id of a block once, or not at all, and no other ids
(`Workspace.Sound.exists_ids`).  Left out is what is astray: the blocks that follow one which is
plugged into another, and all that hangs from them.  So a document covers its workspace just when no
block that is plugged into another one is followed by a third (`Workspace.Sound.covers_iff`), and
the vocabularies whose types either give a value or are followed by others have no workspaces but
those (`History.covers`).
-/

namespace Blockwork

open Forest (Rooted Hangs Lineage IsBranch)
open Snapshot (Entry Strand)

namespace Workspace

variable {w : Workspace} {x y z p c n t : String} {b : Block}

/-! ### Ways up by one kind of slots -/

/-- What a block hangs from by a slot of some kind. -/
def aboveBy? (w : Workspace) (kind : Slot → Bool) (x : String) : Option String :=
  ((w.seat? x).filter fun q => kind q.2).map (·.1)

/-- The block that a block is plugged into. -/
def holder? (w : Workspace) : String → Option String := w.aboveBy? (·.isSome)

/-- The block that a block follows. -/
def before? (w : Workspace) : String → Option String := w.aboveBy? (·.isNone)

theorem aboveBy?_eq_some {kind : Slot → Bool} :
    w.aboveBy? kind x = some p ↔ ∃ s, w.seat? x = some (p, s) ∧ kind s = true := by
  unfold aboveBy?
  rw [Option.map_eq_some_iff]
  constructor
  · rintro ⟨⟨q, s⟩, hq, rfl⟩
    exact ⟨s, Option.filter_eq_some_iff.mp hq⟩
  · rintro ⟨s, hs⟩
    exact ⟨(p, s), Option.filter_eq_some_iff.mpr hs, rfl⟩

theorem holder?_eq_some : w.holder? x = some p ↔ ∃ s, w.seat? x = some (p, some s) := by
  rw [holder?, aboveBy?_eq_some]
  constructor
  · rintro ⟨s, hs, hsome⟩
    obtain ⟨s, rfl⟩ := Option.isSome_iff_exists.mp hsome
    exact ⟨s, hs⟩
  · rintro ⟨s, hs⟩
    exact ⟨some s, hs, rfl⟩

theorem before?_eq_some : w.before? x = some p ↔ w.seat? x = some (p, none) := by
  rw [before?, aboveBy?_eq_some]
  constructor
  · rintro ⟨s, hs, hnone⟩
    rwa [Option.isNone_iff_eq_none.mp hnone] at hs
  · exact fun hs => ⟨none, hs, rfl⟩

theorem above?_of_aboveBy? {kind : Slot → Bool} (h : w.aboveBy? kind x = some p) :
    w.above? x = some p := by
  obtain ⟨s, hs, -⟩ := aboveBy?_eq_some.mp h
  exact above?_eq_some.mpr ⟨s, hs⟩

theorem aboveBy?_of_above?_none (kind : Slot → Bool) (h : w.above? x = none) :
    w.aboveBy? kind x = none := by
  rw [aboveBy?, above?_eq_none.mp h]
  rfl

/-- A block that follows another one is not plugged in. -/
theorem holder?_of_before? (h : w.before? x = some p) : w.holder? x = none :=
  Option.eq_none_iff_forall_ne_some.mpr fun q hq => by
    obtain ⟨s, hs⟩ := holder?_eq_some.mp hq
    cases hs.symm.trans (before?_eq_some.mp h)

theorem aboveBy?_eq (w : Workspace) (kind : Slot → Bool) (x : String) :
    w.aboveBy? kind x = w.above? x ∨ w.aboveBy? kind x = none := by
  cases hx : w.aboveBy? kind x with
  | none => exact .inr rfl
  | some p => exact .inl (above?_of_aboveBy? hx).symm

theorem Sound.rooted_aboveBy? (h : w.Sound) (kind : Slot → Bool) : Rooted (w.aboveBy? kind) :=
  h.rooted.shrink (w.aboveBy?_eq kind)

/-! ### What is astray -/

/-- Whether a block hangs from one that follows a block which is plugged into another one. -/
def Astray (w : Workspace) (x : String) : Prop :=
  ∃ n c p, Hangs w.above? x n ∧ w.before? n = some c ∧ w.holder? c = some p

/-- Whether a block is plugged, over some others, into a block of a chain whose first one is at the
top. -/
def Aligned (w : Workspace) (x t : String) : Prop :=
  ∃ z, Hangs w.holder? x z ∧ Hangs w.before? z t ∧ w.above? t = none

/-- On the way up from what is plugged in no block follows another one. -/
theorem hangs_of_holders (hxz : Hangs w.holder? x z) (hxn : Hangs w.above? x n)
    (hn : w.before? n = some c) : Hangs w.above? z n := by
  -- up from `x`: both ways go to the same holder, since what is plugged in follows nothing
  induction hxz using Relation.ReflTransGen.head_induction_on with
  | refl => exact hxn
  | @head x q hq _ ih =>
      rcases hxn.cases with rfl | ⟨q', hq', hn'⟩
      · cases hq.symm.trans (holder?_of_before? hn)
      · obtain rfl := Option.some.inj (hq'.symm.trans (above?_of_aboveBy? hq))
        exact ih hn'

/-- On the way up a chain to the top no block is plugged into another one. -/
theorem holder?_of_chain (hzt : Hangs w.before? z t) (ht : w.above? t = none)
    (hzn : Hangs w.above? z n) (hn : w.before? n = some c) : w.holder? c = none := by
  induction hzt using Relation.ReflTransGen.head_induction_on with
  | refl =>
      obtain rfl := hzn.eq_of_root ht
      cases hn.symm.trans (aboveBy?_of_above?_none _ ht)
  | @head z q hq hqt ih =>
      rcases hzn.cases with rfl | ⟨q', hq', hqn⟩
      · obtain rfl := Option.some.inj (hq.symm.trans hn)
        rcases Hangs.cases hqt with rfl | ⟨r, hr, -⟩
        · exact aboveBy?_of_above?_none _ ht
        · exact holder?_of_before? hr
      · obtain rfl := Option.some.inj (hq'.symm.trans (above?_of_aboveBy? hq))
        exact ih hqn

/-- Of each block one can tell whether it is astray by looking for a chain at the top. -/
theorem Sound.exists_aligned_iff (h : w.Sound) : (∃ t, w.Aligned x t) ↔ ¬ w.Astray x := by
  constructor
  · rintro ⟨t, z, hxz, hzt, ht⟩ ⟨n, c, p, hxn, hn, hc⟩
    cases hc.symm.trans (holder?_of_chain hzt ht (hangs_of_holders hxz hxn hn) hn)
  · intro hx
    obtain ⟨l, hl⟩ := h.rooted x
    -- the induction goes up from the block, to what it hangs from
    induction hl with
    | @root x hroot => exact ⟨x, x, .refl, .refl, hroot⟩
    | @step x q l hq _ ih =>
        obtain ⟨t, z, hqz, hzt, ht⟩ := ih fun ⟨n, c, p, hqn, hc⟩ => hx ⟨n, c, p, hqn.step hq, hc⟩
        obtain ⟨s, hs⟩ := above?_eq_some.mp hq
        cases s with
        | some s => exact ⟨t, z, hqz.step (holder?_eq_some.mpr ⟨s, hs⟩), hzt, ht⟩
        | none =>
            have hq' : w.before? x = some q := before?_eq_some.mpr hs
            rcases hqz.cases with rfl | ⟨r, hr, -⟩
            · exact ⟨t, x, .refl, hzt.step hq', ht⟩
            · exact absurd ⟨x, q, r, .refl, hq', hr⟩ hx

/-! ### Ids of entries -/

/-- Whether ids are those of a block and of all that is plugged into it, each once. -/
def Spells (w : Workspace) (x : String) (ids : List Value) : Prop :=
  ∃ xs : List String, ids = xs.map .text ∧ IsBranch w.holder? x xs

/-- The blocks plugged into a block, each once. -/
theorem Sound.nodup_held (h : w.Sound) {d : Declaration} (hd : (d.sockets.map (·.name)).Nodup) :
    ((w.plugged x d).map (·.2)).Nodup := by
  refine List.pairwise_map.mpr ((List.pairwise_map.mp (nodup_plugged hd)).imp_of_mem ?_)
  rintro ⟨s, c⟩ ⟨s', c'⟩ hm hm' hne rfl
  exact hne (Option.some.inj
    (h.linked.unique (child?_of_mem_plugged hm) (child?_of_mem_plugged hm')).2)

theorem Sound.mem_held (h : w.Sound) {d : Declaration} (hd : w.type? x = some d) :
    c ∈ (w.plugged x d).map (·.2) ↔ w.holder? c = some x := by
  rw [holder?_eq_some, List.mem_map]
  constructor
  · rintro ⟨⟨s, c⟩, hm, rfl⟩
    exact ⟨s, (h.linked ..).mp (child?_of_mem_plugged hm)⟩
  · rintro ⟨s, hs⟩
    exact ⟨(s, c), (h.mem_plugged hd).mpr ((h.linked ..).mpr hs), rfl⟩

theorem exists_of_inputAt {m : Nat} {k : Key} {i : Key × Value}
    (hi : Snapshot.inputAt w m (k, .text y) = .ok i) : ∃ c es, w.block? y = some c ∧
      Snapshot.ofBlock w m c = .ok es ∧ i = (k, .record [("block", .record es)]) := by
  obtain ⟨j, c, es, hj, hc, hes, hi⟩ := Snapshot.exists_of_inputAt hi
  obtain rfl := Except.ok.inj ((Value.toKey_text y).symm.trans hj)
  exact ⟨c, es, hc, hes, hi⟩

/-- Whether a value is what is written of a block, and gives the ids that it should. -/
def Records (w : Workspace) (x : String) (v : Value) : Prop :=
  ∃ c inputs, v = .record (Snapshot.parts c inputs) ∧
    w.Spells x (c.id :: Snapshot.idsOfInputs (Snapshot.plugsIn inputs))

theorem exists_rows_plugsIn {qs : List (String × String)} {inputs : List (Key × Value)}
    (h : List.Forall₂ (fun q i => ∃ v, i = (Key.text q.1, .record [("block", v)]) ∧
      w.Records q.2 v) qs inputs) : ∃ rows : List (List Value),
        Snapshot.idsOfInputs (Snapshot.plugsIn inputs) = rows.flatten ∧
          List.Forall₂ w.Spells (qs.map (·.2)) rows := by
  induction h with
  | nil => exact ⟨[], rfl, .nil⟩
  | cons hi _ ih =>
      obtain ⟨_, rfl, c, inputs, rfl, hspells⟩ := hi
      obtain ⟨rows, hrows, hall⟩ := ih
      refine ⟨_ :: rows, ?_, .cons hspells hall⟩
      rw [Snapshot.plugsIn_cons, Snapshot.idsOfInputs, hrows]
      rfl

theorem exists_rows_hanging {ys : List String} {vs : List Value}
    (h : List.Forall₂ w.Records ys vs) : ∃ rows : List (List Value),
      (vs.map Snapshot.hangingEntry).flatMap Entry.ids = rows.flatten ∧
        List.Forall₂ w.Spells ys rows := by
  refine ⟨vs.map fun v => (Snapshot.hangingEntry v).ids, List.flatMap_map .., ?_⟩
  refine List.forall₂_map_right_iff.mpr (h.imp ?_)
  rintro y _ ⟨c, inputs, rfl, hspells⟩
  rwa [Snapshot.hangingEntry_parts]

/-- What is written of a block gives its id and those of all that is plugged into it. -/
theorem Sound.spells_ofBlock (h : w.Sound)
    (hd : ∀ d ∈ w.vocabulary.declarations, (d.sockets.map (·.name)).Nodup) {m : Nat}
    {es : List (String × Value)} (hb : w.block? x = some b)
    (hes : Snapshot.ofBlock w m b = .ok es) : ∃ inputs, es = Snapshot.parts b inputs ∧
      w.Spells x (b.id :: Snapshot.idsOfInputs (Snapshot.plugsIn inputs)) := by
  -- on the fuel, which is spent by one for each level that is plugged in
  induction m generalizing x b es with
  | zero => cases hes
  | succ m ih =>
      rw [Snapshot.ofBlock_succ] at hes
      obtain ⟨d, hdecl, hes⟩ := exists_of_bind_ok hes
      obtain ⟨inputs, hinputs, hes⟩ := exists_of_bind_ok hes
      cases hes
      have htype : w.type? x = some d := type?_eq_some.mpr ⟨b, hb, hdecl⟩
      rw [h.plugs_eq hb htype] at hinputs
      have hrecords : List.Forall₂ (fun q i => ∃ v, i = (Key.text q.1, .record [("block", v)]) ∧
          w.Records q.2 v) (w.plugged x d) inputs := by
        refine (List.forall₂_map_left_iff.mp (forall₂_of_mapM hinputs)).imp fun q i hi => ?_
        obtain ⟨c, es, hc, hes, rfl⟩ := exists_of_inputAt hi
        obtain ⟨inputs, rfl, hspells⟩ := ih hc hes
        exact ⟨_, rfl, c, inputs, rfl, hspells⟩
      obtain ⟨rows, hrows, hall⟩ := exists_rows_plugsIn hrecords
      obtain ⟨xss, rfl, hxss⟩ := exists_rows hall
      refine ⟨inputs, rfl, x :: xss.flatten, ?_, ?_⟩
      · rw [hrows, h.id_eq hb, List.map_cons, List.map_flatten]
      · exact (h.rooted_aboveBy? _).isBranch_cons (h.nodup_held (hd d (mem_of_type? htype)))
          (fun _ => h.mem_held htype) hxss

/-! ### Ids of chains -/

/-- The blocks of a chain are those that come, one behind the other, to its first one. -/
theorem Sound.isBranch_chain (h : w.Sound) {m : List String} (hm : Lineage w.next? x m) :
    IsBranch w.before? x m := by
  have hlink (p c : String) : w.next? p = some c ↔ w.before? c = some p :=
    (h.linked p none c).trans before?_eq_some.symm
  refine ⟨hm.nodup, fun y => ?_⟩
  rw [hm.mem_iff]
  exact ⟨fun hxy => hxy.reverse fun p c => (hlink p c).mp,
    fun hyx => hyx.reverse fun c p => (hlink p c).mpr⟩

/-- What is written of a chain gives the ids of its blocks, each with those of all that is plugged
into it. -/
theorem Sound.spells_ofChain (h : w.Sound) (hp : w.Placed)
    (hd : ∀ d ∈ w.vocabulary.declarations, (d.sockets.map (·.name)).Nodup) {v : Value}
    (hb : w.block? x = some b) (hv : Snapshot.ofChain w b = .ok v) :
    ∃ (m : List String) (rows : List (List Value)), IsBranch w.before? x m ∧
      (Snapshot.strandOf v).ids = rows.flatten ∧ List.Forall₂ w.Spells m rows := by
  obtain ⟨l, chain, hl, hchain, hall⟩ := h.exists_chain (x := x) (by rw [hb]; rfl)
  obtain ⟨m, rfl⟩ : ∃ m, l = x :: m := by
    cases hl with
    | root => exact ⟨[], rfl⟩
    | step => exact ⟨_, rfl⟩
  obtain ⟨cx, cy, hpos⟩ := hp x b hb
  have hcx : coordinate b 0 = .ok (.float cx) := by rw [coordinate, hpos]; rfl
  have hcy : coordinate b 1 = .ok (.float cy) := by rw [coordinate, hpos]; rfl
  rw [Snapshot.ofChain_eq, h.id_eq hb, Value.toKey_text, hcx, hcy] at hv
  obtain ⟨_, hk, hv⟩ := exists_of_bind_ok hv
  cases hk
  rw [hchain] at hv
  obtain ⟨_, hk, hv⟩ := exists_of_bind_ok hv
  cases hk
  obtain ⟨es, hes, hv⟩ := exists_of_bind_ok hv
  obtain ⟨vs, hvs, hv⟩ := exists_of_bind_ok (show (do
    let items ← Snapshot.itemsOf w chain.tail
    return Snapshot.chained es (.float cx) (.float cy) items) = .ok v from hv)
  cases hv
  obtain ⟨inputs, rfl, hspells⟩ := h.spells_ofBlock hd hb hes
  cases hall with
  | @cons _ e _ tail he hall =>
      have hrecords : List.Forall₂ w.Records m vs := by
        refine (forall₂_of_common hall.flip (forall₂_of_mapM hvs)).imp ?_
        rintro y v ⟨e, ⟨-, he⟩, hv⟩
        obtain ⟨es, hes, hv⟩ := exists_of_bind_ok hv
        cases hv
        obtain ⟨inputs, rfl, hspells⟩ := h.spells_ofBlock hd he hes
        exact ⟨e.2, inputs, rfl, hspells⟩
      obtain ⟨rows, hrows, hspellsAll⟩ := exists_rows_hanging hrecords
      refine ⟨x :: m, _ :: rows, h.isBranch_chain hl, ?_, .cons hspells hspellsAll⟩
      rw [Snapshot.strandOf_parts b inputs cx cy fun v hv => ?_, List.flatten_cons, ← hrows]
      · rfl
      · obtain ⟨y, -, c, inputs, rfl, -⟩ := exists_of_mem_forall₂ hrecords hv
        exact ⟨c, inputs, rfl⟩

/-! ### Ids of workspaces -/

theorem exists_rows_strands {ts : List String} {vs : List Value}
    (h : List.Forall₂ (fun t v => ∃ (m : List String) (rows : List (List Value)),
      IsBranch w.before? t m ∧ (Snapshot.strandOf v).ids = rows.flatten ∧
        List.Forall₂ w.Spells m rows) ts vs) :
    ∃ (ms : List (List String)) (rows : List (List Value)),
      List.Forall₂ (IsBranch w.before?) ts ms ∧
        (vs.map Snapshot.strandOf).flatMap Strand.ids = rows.flatten ∧
        List.Forall₂ w.Spells ms.flatten rows := by
  induction h with
  | nil => exact ⟨[], [], .nil, rfl, .nil⟩
  | cons hv _ ih =>
      obtain ⟨m, rows, hm, hids, hspells⟩ := hv
      obtain ⟨ms, rows', hms, hids', hspells'⟩ := ih
      refine ⟨m :: ms, rows ++ rows', .cons hm hms, ?_, ?_⟩
      · rw [List.map_cons, List.flatMap_cons, hids, hids', List.flatten_append]
      · rw [List.flatten_cons]
        exact List.rel_append hspells hspells'

/-- Just the blocks that are not astray are aligned with the top. -/
theorem Sound.aligned_iff (h : w.Sound) {ts : List String} (hroots : ∀ t ∈ ts, w.above? t = none)
    (hthere : ∀ t ∈ ts, (w.block? t).isSome)
    (hbelow : ∀ y, (w.block? y).isSome → ∃ t ∈ ts, Hangs w.above? y t) :
    (∃ t ∈ ts, w.Aligned x t) ↔ (w.block? x).isSome ∧ ¬ w.Astray x := by
  have up {y t : String} (hyt : w.Aligned y t) : Hangs w.above? y t := by
    obtain ⟨z, hyz, hzt, -⟩ := hyt
    exact (hyz.of_shrink (w.aboveBy?_eq _)).trans (hzt.of_shrink (w.aboveBy?_eq _))
  rw [← h.exists_aligned_iff]
  constructor
  · rintro ⟨t, ht, hxt⟩
    refine ⟨?_, t, hxt⟩
    rcases (up hxt).cases with rfl | ⟨p, hp, -⟩
    · exact hthere x ht
    · obtain ⟨s, hs⟩ := above?_eq_some.mp hp
      obtain ⟨b, hb, -⟩ := seat?_eq_some.mp hs
      rw [hb]
      rfl
  · rintro ⟨hx, t, hxt⟩
    obtain ⟨t', ht', hxt'⟩ := hbelow x hx
    obtain ⟨z, -, -, htop⟩ := id hxt
    rcases (up hxt).total hxt' with k | k
    · exact ⟨t, k.eq_of_root htop ▸ ht', hxt⟩
    · exact ⟨t, (k.eq_of_root (hroots t' ht')) ▸ ht', hxt⟩

/-- **The ids in a document** are those of the blocks which are not astray, each once. -/
theorem Sound.exists_ids (h : w.Sound) (hp : w.Placed)
    (hd : ∀ d ∈ w.vocabulary.declarations, (d.sockets.map (·.name)).Nodup) {document : Value}
    (hdocument : Snapshot.ofWorkspace w = .ok document) :
    ∃ (strands : List Strand) (xs : List String), Snapshot.outline document = .ok strands ∧
      strands.flatMap Strand.ids = xs.map .text ∧ xs.Nodup ∧
        ∀ x, x ∈ xs ↔ (w.block? x).isSome ∧ ¬ w.Astray x := by
  obtain ⟨tops, htops, hdocument⟩ := exists_of_bind_ok hdocument
  obtain ⟨chains, hchains, hdocument⟩ := exists_of_bind_ok hdocument
  have houtline : Snapshot.outline document = .ok (chains.map Snapshot.strandOf) := by
    cases chains with
    | nil => cases hdocument; rfl
    | cons v vs => cases hdocument; rfl
  obtain ⟨tops', htops', hperm, -⟩ := h.exists_tops hp
  obtain rfl := Except.ok.inj (htops.symm.trans htops')
  obtain ⟨ts, hts, hnd, hroots, hbelow⟩ := h.exists_topmost hperm
  have hthere : ∀ t ∈ ts, (w.block? t).isSome := fun t ht => by
    obtain ⟨b, -, hb, -⟩ := exists_of_mem_forall₂ hts.flip ht
    rw [hb]
    rfl
  obtain ⟨ms, rows, hms, hids, hspells⟩ := exists_rows_strands <|
    (forall₂_of_common hts.flip (forall₂_of_mapM hchains)).imp fun t v hv => by
      obtain ⟨b, ⟨hb, -⟩, hv⟩ := hv
      exact h.spells_ofChain hp hd hb hv
  obtain ⟨hchained, hmem⟩ := IsBranch.flatten hms <| Forest.pairwise_of_roots hnd fun t ht =>
    aboveBy?_of_above?_none _ (hroots t ht)
  -- no block of a chain at the top is plugged in
  have hloose : ∀ z ∈ ms.flatten, w.holder? z = none := fun z hz => by
    obtain ⟨t, ht, hzt⟩ := (hmem z).mp hz
    rcases hzt.cases with rfl | ⟨p, hp, -⟩
    · exact aboveBy?_of_above?_none _ (hroots z ht)
    · exact holder?_of_before? hp
  obtain ⟨xss, rfl, hxss⟩ := exists_rows hspells
  obtain ⟨hxs, hmemx⟩ := IsBranch.flatten hxss (Forest.pairwise_of_roots hchained hloose)
  refine ⟨_, xss.flatten, houtline, by rw [hids, List.map_flatten], hxs, fun x => ?_⟩
  rw [hmemx, ← h.aligned_iff hroots hthere hbelow]
  constructor
  · rintro ⟨z, hz, hxz⟩
    obtain ⟨t, ht, hzt⟩ := (hmem z).mp hz
    exact ⟨t, ht, z, hxz, hzt, hroots t ht⟩
  · rintro ⟨t, ht, z, hxz, hzt, -⟩
    exact ⟨z, (hmem z).mpr ⟨t, ht, hzt⟩, hxz⟩

theorem Sound.mem_ids (h : w.Sound) {id : Value} :
    id ∈ w.blocks.map (·.id) ↔ ∃ x, .text x = id ∧ (w.block? x).isSome := by
  rw [List.mem_map]
  constructor
  · rintro ⟨b, hb, rfl⟩
    obtain ⟨e, he, rfl⟩ := List.mem_map.mp hb
    obtain ⟨x, -, hx⟩ := h.key_text (find?_of_mem_entries he)
    exact ⟨x, (h.id_eq hx).symm, by rw [hx]; rfl⟩
  · rintro ⟨x, rfl, hx⟩
    obtain ⟨b, hb⟩ := Option.isSome_iff_exists.mp hx
    exact ⟨b, List.mem_map.mpr ⟨_, mem_entries.mpr hb, rfl⟩, h.id_eq hb⟩

/-- Whether a document gives the id of every block of a workspace exactly once, and no others. -/
def Covers (w : Workspace) (document : Value) : Prop :=
  ∃ strands : List Strand, Snapshot.outline document = .ok strands ∧
    (strands.flatMap Strand.ids).Perm (w.blocks.map (·.id))

/-- **A document covers its workspace** just when no block that is plugged into another one is
followed by a third. -/
theorem Sound.covers_iff (h : w.Sound) (hp : w.Placed)
    (hd : ∀ d ∈ w.vocabulary.declarations, (d.sockets.map (·.name)).Nodup) {document : Value}
    (hdocument : Snapshot.ofWorkspace w = .ok document) :
    w.Covers document ↔ ∀ p s c, w.seat? c = some (p, some s) → w.next? c = none := by
  obtain ⟨strands, xs, houtline, hids, hxs, hmem⟩ := h.exists_ids hp hd hdocument
  constructor
  · rintro ⟨strands', hs, hperm⟩ p s c hc
    obtain rfl := Except.ok.inj (houtline.symm.trans hs)
    refine Option.eq_none_iff_forall_ne_some.mpr fun n hn => ?_
    have hthere := hperm.mem_iff.mpr (h.mem_ids.mpr ⟨n, rfl, h.isSome_child hn⟩)
    rw [hids] at hthere
    obtain ⟨x, hx, hxn⟩ := List.mem_map.mp hthere
    obtain rfl := Value.text.inj hxn
    exact ((hmem x).mp hx).2 ⟨x, c, p, .refl, before?_eq_some.mpr ((h.linked ..).mp hn),
      holder?_eq_some.mpr ⟨s, hc⟩⟩
  · intro hall
    refine ⟨strands, houtline, hids ▸ ?_⟩
    refine (List.perm_ext_iff_of_nodup (hxs.map fun _ _ => Value.text.inj) h.nodup_ids).mpr ?_
    intro id
    rw [h.mem_ids, List.mem_map]
    refine exists_congr fun x => ?_
    rw [hmem, and_comm]
    refine and_congr_right fun _ => and_iff_left ?_
    rintro ⟨n, c, p, -, hn, hc⟩
    obtain ⟨s, hs⟩ := holder?_eq_some.mp hc
    cases (hall p s c hs).symm.trans ((h.linked ..).mpr (before?_eq_some.mp hn))

end Workspace

/-! ### Histories -/

/-- **A document loses no block** where types either give a value or are followed by others. -/
theorem History.covers {σ : Type} {a : Audience σ} {v : Vocabulary} {g : Workspace} (ha : a.Tame)
    (hv : v.Storable) (hg : History a v g) {document : Value}
    (hdocument : Snapshot.ofWorkspace g = .ok document) : g.Covers document := by
  have hs := hg.sound ha hv.worded
  have hvg := hg.vocabulary ha hv.worded
  refine (hs.covers_iff (fun x b hb => ?_) (hvg ▸ hv.orStock.distinct) hdocument).mpr ?_
  · obtain ⟨d, hd⟩ := hg.holds ha hv.worded hv.orStock.worded.persistent x b hb
    exact hd.placed
  · intro p s c hc
    refine Option.eq_none_iff_forall_ne_some.mpr fun n hn => ?_
    obtain ⟨-, d, -, hd, _, -, hvalue, -⟩ := hs.suited _ _ _ hc
    obtain ⟨d', -, hd', -, hnext, -⟩ := hs.suited _ _ _ ((hs.linked ..).mp hn)
    obtain rfl := Option.some.inj (hd.symm.trans hd')
    cases hnext.symm.trans ((hvg ▸ hv.orStock).apart d
      (Workspace.mem_of_type? hd) hvalue)

end Blockwork
