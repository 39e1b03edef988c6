import Blockwork.Proofs.Clearing
import Blockwork.Proofs.Inert

/-!
# Walks as loops

A walk down is a loop that keeps the links it has still to follow on a stack (`Workspace.dig`); a
walk along a chain and a walk up are loops that follow one link after the other
(`Workspace.proceed`, `Workspace.climb`).  In a workspace that came about by calls they come to an
end, the walk down with the blocks in preorder (`Workspace.InPreorder`), and they agree: a walk up
from a block comes upon another one just when a walk down from that one meets the block
(`History.walks_agree`).

That the stack stands for a recursion does not depend on how the blocks are linked
(`InPreorder.halts_dig`); that there is an end to the recursion does.
-/

namespace Blockwork

open Forest (Hangs Lineage)

/-- Whether a loop comes to an end with an answer, from a state; each turn gives the state after it,
or the answer. -/
inductive Halts {σ α : Type} (turn : σ → σ ⊕ α) (answer : α) : σ → Prop where
  | now {s : σ} : turn s = .inr answer → Halts turn answer s
  | later {s t : σ} : turn s = .inl t → Halts turn answer t → Halts turn answer s

namespace Workspace

/-! ### The loops -/

/-- The block that a link leads to; a link that says nothing leads nowhere. -/
def follow (w : Workspace) (link : Value) : Except Error (Option Block) := do
  if link.isTruthy then return w.find? (← link.toKey) else return none

/-- One turn of a walk down.  The state is a stack of links, the one to be followed next first, and
the blocks met before. -/
def dig (w : Workspace) :
    List Value × List Block → (List Value × List Block) ⊕ Except Error (List Block)
  | ([], met) => .inr (.ok met)
  | (link :: stack, met) =>
    match link.toKey with
    | .error e => .inr (.error e)
    | .ok k =>
      match w.find? k with
      | none => .inl (stack, met)
      | some b =>
        let stack := if b.next.isTruthy then b.next :: stack else stack
        .inl ((b.inputs.map (·.2)).reverse.foldl (fun stack link => link :: stack) stack,
          met ++ [b])

/-- One turn of a walk along a chain.  The state is the blocks met before, and the block that the
walk has come to. -/
def proceed (w : Workspace) :
    List Block × Option Block → (List Block × Option Block) ⊕ Except Error (List Block)
  | (met, none) => .inr (.ok met)
  | (met, some b) =>
    match w.follow b.next with
    | .error e => .inr (.error e)
    | .ok behind => .inl (met ++ [b], behind)

/-- One turn of a walk up in search of a block with an id.  The state is the block that the walk has
come to. -/
def climb (w : Workspace) (id : Value) : Option Block → Option Block ⊕ Except Error Bool
  | none => .inr (.ok false)
  | some b =>
    if b.id.same id then .inr (.ok true)
    else match w.follow b.parent with
      | .error e => .inr (.error e)
      | .ok above => .inl above

/-! ### What they come to -/

/-- Whether blocks are those that are reached along links, in preorder: the block that a link leads
to, those below its inputs and its next block, and those along the other links. -/
inductive InPreorder (w : Workspace) : List Value → List Block → Prop where
  | nil : InPreorder w [] []
  | cons {link : Value} {links : List Value} {k : Key} {b : Block} {below others : List Block} :
      link.toKey = .ok k → w.find? k = some b → InPreorder w b.targets below →
      InPreorder w links others → InPreorder w (link :: links) (b :: (below ++ others))

/-- Whether blocks are a block and those that follow it, each the next one of the one before it. -/
inductive InRow (w : Workspace) : Key → List (Key × Block) → Prop where
  | last {k : Key} {b : Block} : w.find? k = some b → b.next = .null → InRow w k [(k, b)]
  | cons {k j : Key} {b : Block} {row : List (Key × Block)} :
      w.find? k = some b → b.next.isTruthy = true → b.next.toKey = .ok j → InRow w j row →
      InRow w k ((k, b) :: row)

/-- Whether a walk down from a block comes to an end, with the blocks below it in preorder, each
once. -/
structure WalksDown (w : Workspace) (k : Key) (below : List Block) : Prop where
  found : w.descendants k = .ok below
  halts : Halts w.dig (.ok below) ([.ofKey k], [])
  preorder : w.InPreorder [.ofKey k] below
  once : (below.map (·.id)).Nodup

/-- Whether a walk along the chain from a block comes to an end, with the blocks that follow it,
each once. -/
structure WalksAlong (w : Workspace) (k : Key) (row : List (Key × Block)) : Prop where
  found : w.chain k = .ok row
  halts : Halts w.proceed (.ok (row.map (·.2))) ([], w.find? k)
  inRow : w.InRow k row
  once : (row.map (·.2.id)).Nodup

/-- Whether a walk up from a block comes to an end, with the answer whether it has come upon a block
under another key. -/
structure WalksUp (w : Workspace) (above k : Key) (up : Bool) : Prop where
  found : w.hangsFrom above k = .ok up
  halts : Halts (w.climb (.ofKey above)) (.ok up) (w.find? k)

variable {w : Workspace} {x y : String} {k : Key} {link : Value} {links links' : List Value}
  {b c : Block} {bs bs' : List Block}

theorem follow_of_toKey (ht : link.isTruthy = true) (hk : link.toKey = .ok k) :
    w.follow link = .ok (w.find? k) := by
  rw [follow, if_pos ht, hk]
  rfl

theorem follow_text (hx : x ≠ "") : w.follow (.text x) = .ok (w.block? x) :=
  follow_of_toKey (by simpa [Value.isTruthy] using hx) rfl

/-! ### Down -/

/-- What a turn of a walk down leaves on the stack are the links of the block it has met, in their
order. -/
theorem dig_cons (hk : link.toKey = .ok k) (hb : w.find? k = some b) (stack : List Value)
    (met : List Block) : w.dig (link :: stack, met) = .inl (b.targets ++ stack, met ++ [b]) := by
  have hpushed (links stack : List Value) :
      links.reverse.foldl (fun stack link => link :: stack) stack = links ++ stack := by
    rw [List.foldl_flip_cons_eq_append', List.reverse_reverse]
  simp only [dig, hk, hb, hpushed, Block.targets]
  split <;> simp

namespace InPreorder

theorem append (h : w.InPreorder links bs) (h' : w.InPreorder links' bs') :
    w.InPreorder (links ++ links') (bs ++ bs') := by
  induction h with
  | nil => exact h'
  | cons hk hb hbelow _ _ ih =>
      rw [List.cons_append, List.cons_append, List.append_assoc]
      exact .cons hk hb hbelow ih

theorem flatten {bss : List (List Block)}
    (h : List.Forall₂ (fun link bs => w.InPreorder [link] bs) links bss) :
    w.InPreorder links bss.flatten := by
  induction h with
  | nil => exact .nil
  | cons hlink _ ih => exact hlink.append ih

theorem single (hk : link.toKey = .ok k) (hb : w.find? k = some b)
    (h : w.InPreorder b.targets bs) : w.InPreorder [link] (b :: bs) := by
  simpa using h.cons hk hb .nil

/-- A walk down that has links on top of its stack goes on with the other links when it has met the
blocks along these, in preorder. -/
theorem halts_dig (h : w.InPreorder links bs) {stack : List Value} {met : List Block}
    {answer : Except Error (List Block)} (hrest : Halts w.dig answer (stack, met ++ bs)) :
    Halts w.dig answer (links ++ stack, met) := by
  induction h generalizing stack met with
  | nil => simpa using hrest
  | cons hk hb _ _ ihbelow ihothers =>
      refine .later (dig_cons hk hb _ _) (ihbelow (ihothers ?_))
      simpa using hrest

end InPreorder

/-- With steps enough a walk down comes to the blocks in preorder. -/
theorem Sound.inPreorder_of_descendantsFrom (h : w.Sound) {l : List String}
    (hl : Lineage w.above? x l) (hx : (w.block? x).isSome) {n : Nat} (hn : w.size < l.length + n)
    (hbs : w.descendantsFrom n (.text x) = .ok bs) : w.InPreorder [.text x] bs := by
  induction n generalizing x l bs with
  | zero => exact absurd (h.length_lineage_le hl hx) (by omega)
  | succ n ih =>
      obtain ⟨b, hb⟩ := Option.isSome_iff_exists.mp hx
      have hsh := h.shaped x b hb
      rw [h.descendantsFrom_succ hb, map_eq_pure_bind] at hbs
      obtain ⟨bss, hbss, hbs⟩ := exists_of_bind_ok hbs
      cases hbs
      refine .single rfl hb ?_
      rw [hsh.targets_eq (h.next_ne_empty hb)]
      refine .flatten (List.forall₂_map_left_iff.mpr ?_)
      refine (forall₂_with_mem (forall₂_of_mapM hbss)).imp fun c bs hc => ?_
      obtain ⟨hc, -, hbs⟩ := hc
      obtain ⟨s, hs⟩ := hsh.mem_children.mp hc
      have hcx : w.child? x s = some c := child?_eq_some.mpr ⟨b, hb, hs⟩
      refine ih (.step (h.above?_of_child? hcx) hl) (h.isSome_child hcx) ?_ hbs
      simp only [List.length_cons]
      omega

/-- Of the blocks that a walk down meets, one is under a name just when the name hangs from where
the walk began. -/
theorem Sound.mem_descendants_iff (h : w.Sound) (hbs : w.descendants (.text x) = .ok bs)
    (hbelow : w.IsBelow x bs) (hc : w.block? y = some c) : c ∈ bs ↔ Hangs w.above? y x := by
  obtain ⟨xs, hids, -, hmem⟩ := hbelow
  have hy : Value.text y ∈ bs.map (·.id) ↔ y ∈ xs := by simp [hids]
  rw [← hmem, ← hy, ← h.id_eq hc]
  refine ⟨List.mem_map_of_mem, fun hid => ?_⟩
  obtain ⟨d, hd, hdc⟩ := List.mem_map.mp hid
  have hthere := mem_of_descendantsFrom ((descendants_eq w _).symm.trans hbs) hd
  obtain rfl := List.inj_on_of_nodup_map h.nodup_ids hthere (mem_blocks hc) hdc
  exact hd

theorem Sound.exists_walksDown (h : w.Sound) (hb : w.block? x = some b) :
    ∃ below, w.WalksDown (.text x) below ∧ w.IsBelow x below := by
  have hx : (w.block? x).isSome := by
    rw [hb]
    rfl
  obtain ⟨below, hfound, hbelow⟩ := h.exists_descendants hx
  obtain ⟨l, hl⟩ := h.rooted x
  have hpre : w.InPreorder [.text x] below :=
    h.inPreorder_of_descendantsFrom hl hx (Nat.lt_add_of_pos_left hl.length_pos)
      ((descendants_eq w _).symm.trans hfound)
  have hhalts : Halts w.dig (.ok below) ([.text x] ++ [], []) := hpre.halts_dig (.now rfl)
  refine ⟨below, ⟨hfound, hhalts, hpre, ?_⟩, hbelow⟩
  obtain ⟨xs, hids, hnd, -⟩ := hbelow
  rw [hids]
  exact hnd.map fun _ _ => Value.text.inj

/-! ### Along a chain -/

theorem InRow.halts_proceed {row : List (Key × Block)} (h : w.InRow k row) (met : List Block) :
    Halts w.proceed (.ok (met ++ row.map (·.2))) (met, w.find? k) := by
  induction h generalizing met with
  | @last k b hb hnext =>
      rw [hb]
      refine .later (t := (met ++ [b], none)) ?_ (.now rfl)
      rw [proceed, hnext]
      rfl
  | @cons k j b row hb ht hj _ ih =>
      rw [hb]
      refine .later (t := (met ++ [b], w.find? j)) ?_ (by simpa using ih (met ++ [b]))
      simp only [proceed, follow_of_toKey ht hj]

theorem Sound.inRow (h : w.Sound) {m : List String} (hm : Lineage w.next? x m)
    {row : List (Key × Block)}
    (hrow : List.Forall₂ (fun y e => e.1 = .text y ∧ w.block? y = some e.2) m row) :
    w.InRow (.text x) row := by
  induction hm generalizing row with
  | root hx =>
      obtain ⟨⟨_, b⟩, _, ⟨rfl, hb⟩, hnil, rfl⟩ := List.forall₂_cons_left_iff.mp hrow
      cases hnil
      refine .last hb ?_
      rw [h.next_eq hb, ← next?, hx]
      rfl
  | @step x y m hy _ ih =>
      obtain ⟨⟨_, b⟩, row, ⟨rfl, hb⟩, hrest, rfl⟩ := List.forall₂_cons_left_iff.mp hrow
      have hnext : b.next = .text y := by
        rw [h.next_eq hb, ← next?, hy]
        rfl
      have hne : y ≠ "" := fun e => h.next_ne_empty hb (e ▸ hnext)
      exact .cons hb (by simpa [hnext, Value.isTruthy] using hne) (by rw [hnext]; rfl) (ih hrest)

theorem Sound.exists_walksAlong (h : w.Sound) (hb : w.block? x = some b) :
    ∃ row, w.WalksAlong (.text x) row := by
  obtain ⟨m, row, hm, hfound, hrow⟩ := h.exists_chain (x := x) (by rw [hb]; rfl)
  have hinRow := h.inRow hm hrow
  refine ⟨row, hfound, hinRow.halts_proceed [], hinRow, ?_⟩
  rw [map_eq_of_forall₂ (f := Value.text) hrow fun y e he => h.id_eq he.2]
  exact hm.nodup.map fun _ _ => Value.text.inj

/-! ### Up -/

theorem climb_self (hid : b.id = .text y) : w.climb (.text y) (some b) = .inr (.ok true) := by
  simp [climb, hid, Value.same_text]

theorem climb_of_ne (hid : b.id = .text x) (hxy : x ≠ y) {above : Option Block}
    (habove : w.follow b.parent = .ok above) : w.climb (.text y) (some b) = .inl above := by
  simp [climb, hid, Value.same_text, hxy, habove]

theorem Sound.follow_parent (h : w.Sound) (hb : w.block? x = some b) :
    w.follow b.parent = .ok ((w.above? x).bind w.block?) := by
  rw [h.parent_eq hb]
  cases hp : w.above? x with
  | none => rfl
  | some p =>
      obtain ⟨s, hs⟩ := above?_eq_some.mp hp
      obtain ⟨d, hd⟩ := Option.isSome_iff_exists.mp (h.isSome_parent hs)
      exact follow_text (h.ne_empty hd)

/-- A walk up finds out whether a block is on the way up. -/
theorem Sound.halts_climb (h : w.Sound) {l : List String} (hl : Lineage w.above? x l)
    (hx : (w.block? x).isSome) (y : String) :
    Halts (w.climb (.text y)) (.ok (decide (y ∈ l))) (w.block? x) := by
  induction hl with
  | @root x hr =>
      obtain ⟨b, hb⟩ := Option.isSome_iff_exists.mp hx
      rw [hb]
      by_cases hxy : x = y
      · subst hxy
        exact .now (by simpa using climb_self (h.id_eq hb))
      · refine .later (climb_of_ne (h.id_eq hb) hxy (h.follow_parent hb)) ?_
        rw [hr]
        exact .now (by simp [climb, Ne.symm hxy])
  | @step x p l hp _ ih =>
      obtain ⟨b, hb⟩ := Option.isSome_iff_exists.mp hx
      obtain ⟨s, hs⟩ := above?_eq_some.mp hp
      rw [hb]
      by_cases hxy : x = y
      · subst hxy
        exact .now (by simpa using climb_self (h.id_eq hb))
      · refine .later (climb_of_ne (h.id_eq hb) hxy (h.follow_parent hb)) ?_
        rw [hp]
        simpa [Ne.symm hxy] using ih (h.isSome_parent hs)

theorem Sound.exists_walksUp (h : w.Sound) (hc : w.block? y = some c) (x : String) :
    ∃ up, w.WalksUp (.text x) (.text y) up ∧ (up = true ↔ Hangs w.above? y x) := by
  have hy : (w.block? y).isSome := by
    rw [hc]
    rfl
  obtain ⟨l, hl⟩ := h.rooted y
  refine ⟨decide (x ∈ l), ⟨?_, h.halts_climb hl hy x⟩, ?_⟩
  · exact h.reachesUp_eq hl hy (h.length_lineage_le hl hy) x
  · rw [decide_eq_true_iff, hl.mem_iff]

end Workspace

/-! ### Histories -/

namespace Shelved

/-- A text that is plugged into a block, and one that waits behind that block. -/
def trailed (y : Binary64) : List (Key × Block) :=
  [(.text "a", { holder with inputs := [(.text "TEXT", .text "d")], next := .text "b" }),
    (.text "d", { textAt y with
      parent := .text "a", parentInput := .text "TEXT", enabled := .bool false }),
    (.text "b", { Severing.waiter "b" with parent := .text "a" })]

theorem exists_trailed (y : Binary64) :
    ∃ w, History .journal .stock w ∧ w.Listed .stock 0 (trailed y) := by
  obtain ⟨w, hw, h⟩ := exists_shelved y
  have hbelow : w.hangsFrom (.text "b") (.text "a") = .ok false :=
    h.hangsFrom_loose (b := { holder with inputs := [(.text "TEXT", .text "d")] }) rfl rfl rfl
      (by decide)
  exact hw.exists_command (.connectNext (.text "a") (.text "b"))
    (h.ends_connectNext_free (p := { holder with inputs := [(.text "TEXT", .text "d")] })
      (c := Severing.waiter "b") rfl rfl (h.declarationOf_eq rfl rfl) rfl (h.declarationOf_eq rfl rfl)
      rfl hbelow rfl rfl rfl fun _ _ hu => hu)

theorem descendants_trailed {w : Workspace} {y : Binary64} (h : w.Listed .stock 0 (trailed y)) :
    w.descendants (.text "a") =
      .ok [{ holder with inputs := [(.text "TEXT", .text "d")], next := .text "b" },
        { textAt y with parent := .text "a", parentInput := .text "TEXT", enabled := .bool false },
        { Severing.waiter "b" with parent := .text "a" }] := by
  rw [Workspace.descendants_eq, h.size_eq]
  simp only [trailed, List.length_cons, List.length_nil, Workspace.descendantsFrom, h.find?_eq]
  rfl

end Shelved

namespace History

variable {σ : Type} {a : Audience σ} {v : Vocabulary} {g : Workspace}

/-- **Walks down and walks up agree.**  From any two blocks the walks come to an end: down from the
first one in preorder, along its chain, each block once; and up from the second one, where the first
one is come upon just when the walk down has met the second. -/
theorem walks_agree (ha : a.Tame) (hv : v.Worded) (hg : History a v g) {j k : Key} {b c : Block}
    (hb : g.find? j = some b) (hc : g.find? k = some c) :
    ∃ below row up, g.WalksDown j below ∧ g.WalksAlong j row ∧ g.WalksUp j k up ∧
      (up = true ↔ c ∈ below) := by
  have h := hg.sound ha hv
  obtain ⟨x, rfl, hb⟩ := h.key_text hb
  obtain ⟨y, rfl, hc⟩ := h.key_text hc
  obtain ⟨below, hdown, hbelow⟩ := h.exists_walksDown hb
  obtain ⟨row, halong⟩ := h.exists_walksAlong hb
  obtain ⟨up, hup, hiff⟩ := h.exists_walksUp hc x
  exact ⟨below, row, up, hdown, halong, hup,
    hiff.trans (h.mem_descendants_iff hdown.found hbelow hc).symm⟩

/-- A walk down meets what is plugged in before what follows, and a walk up comes back from there. -/
theorem walks_agree_trailed : ∃ (g : Workspace) (below : List Block) (row : List (Key × Block)),
    History .journal .stock g ∧ g.WalksDown (.text "a") below ∧ g.WalksAlong (.text "a") row ∧
      g.WalksUp (.text "a") (.text "b") true ∧
      below.map (·.id) = [.text "a", .text "d", .text "b"] := by
  obtain ⟨g, hg, h⟩ := Shelved.exists_trailed (.zero false)
  obtain ⟨below, row, up, hdown, halong, hup, hiff⟩ :=
    walks_agree Audience.tame_journal Vocabulary.worded_stock hg
      ((h.find?_eq (.text "a")).trans rfl) ((h.find?_eq (.text "b")).trans rfl)
  obtain rfl := Except.ok.inj ((Shelved.descendants_trailed h).symm.trans hdown.found)
  obtain rfl := hiff.mpr (by simp)
  exact ⟨g, _, row, hg, hdown, halong, hup, rfl⟩

end History

/-- Where a block is below another one twice, a walk down meets it twice. -/
theorem Loading.not_always_agreeing : ∃ (w : Workspace) (b : Block) (below : List Block),
    History .journal namelessVocabulary w ∧ w.find? (.text "p") = some b ∧
      w.descendants (.text "p") = .ok below ∧
      below.map (·.id) = [.text "p", .text "c", .text "c"] ∧
      ¬ ∃ below, w.WalksDown (.text "p") below := by
  obtain ⟨w, hw, h⟩ := exists_doubled
  refine ⟨w, _, _, hw, (h.find?_eq _).trans rfl, descendants_doubled h, rfl, ?_⟩
  rintro ⟨below, hdown⟩
  obtain rfl := Except.ok.inj ((descendants_doubled h).symm.trans hdown.found)
  exact absurd hdown.once (by decide)

end Blockwork
