import Blockwork.Proofs.Building
import Blockwork.Proofs.Chronicle

/-!
# Chains in one list and chains link by link

A chain may be written with all blocks that follow in one list (`Snapshot.flat`), or with each block
in the link of the one before it (`Snapshot.nested`).  The two say the same: what is built from a
document, or goes wrong, does not depend on which of them its chains are written in
(`Snapshot.rebuild_flat`).

The list is read entry by entry, and every entry is checked for a link of its own; the links are
followed one by one, and every link is checked for a block.  Entries without a link pass both.
-/

namespace Blockwork.Snapshot

variable {σ : Type}

/-- A chain whose blocks after the first are in one list. -/
def flat (top : List (Key × Value)) (following : List (List (Key × Value))) : Value :=
  .dict (Entries.put top (.text "next") (.record [("blocks", .list (following.map .dict))]))

/-- A chain each of whose blocks is in the link of the one before it. -/
def nested : List (Key × Value) → List (List (Key × Value)) → Value
  | top, [] => .dict (Entries.erase top (.text "next"))
  | top, e :: rest => .dict (Entries.put top (.text "next") (.record [("block", nested e rest)]))

/-- A document with chains, in a section where a version and whatever else may stand. -/
def document (around inside : List (Key × Value)) (chains : List Value) : Value :=
  .dict (Entries.put around (.text "blocks")
    (.dict (Entries.put inside (.text "blocks") (.list chains))))

/-! ### Entries -/

/-- Putting a link into an entry leaves what the entry says of its own block. -/
theorem entryOf_put_next (position : Value) (es : List (Key × Value)) (link : Value) :
    entryOf position (.dict (Entries.put es (.text "next") link)) = entryOf position (.dict es) :=
  entryOf_congr position fun k hk => by
    rw [Entries.get?_put_text, if_neg]
    rintro rfl
    exact absurd hk (by decide)

/-- The first entry of a chain is the same in either form. -/
theorem entryOf_nested (position : Value) (top : List (Key × Value))
    (following : List (List (Key × Value))) :
    entryOf position (nested top following) = entryOf position (.dict top) := by
  cases following with
  | nil => exact entryOf_erase_next position top
  | cons e rest => exact entryOf_put_next position top _

/-! ### What follows -/

theorem nextIn_eq (id : Value) (es : List (Key × Value)) :
    nextIn id es = ((Entries.get? es (.text "next")).map (linked id)).getD [] := by
  induction es with
  | nil => rfl
  | cons e es ih =>
      rw [nextIn, Entries.get?_cons, ih]
      unfold isNamed
      split <;> rfl

theorem after_put_next (es : List (Key × Value)) (v : Value) :
    after (.dict (Entries.put es (.text "next") (.record [("block", v)]))) =
      hangingEntry v :: after v := by
  rw [after, nextIn_eq, Entries.get?_put_text es _ "next" "next", if_pos rfl]
  rfl

theorem after_erase_next (es : List (Key × Value)) :
    after (.dict (Entries.erase es (.text "next"))) = [] := by
  have hnext : Entries.get? (Entries.erase es (.text "next")) (.text "next") = none := by
    rw [Entries.get?_erase, if_pos (Key.beq_text_iff.mpr rfl)]
  rw [after, nextIn_eq, hnext]
  rfl

/-- Following the links of a nested chain comes upon the entries one after the other. -/
theorem after_nested (top : List (Key × Value)) (following : List (List (Key × Value))) :
    after (nested top following) = following.map fun e => hangingEntry (.dict e) := by
  induction following generalizing top with
  | nil => exact after_erase_next top
  | cons e rest ih =>
      rw [nested, after_put_next, ih, List.map_cons]
      exact congrArg (· :: _) (entryOf_nested origin e rest)

/-- Entries without links of their own are read from a list one after the other. -/
theorem listed_eq_map {following : List (List (Key × Value))}
    (h : ∀ e ∈ following, Entries.get? e (.text "next") = none) :
    listed (following.map .dict) = following.map fun e => hangingEntry (.dict e) := by
  induction following with
  | nil => rfl
  | cons e rest ih =>
      have hnone : (Entries.get? e (.text "next")).getD .null = .null := by
        rw [h e List.mem_cons_self, Option.getD_none]
      rw [List.map_cons, listed, if_pos hnone, ih fun e he => h e (List.mem_cons_of_mem _ he),
        List.map_cons]

/-- The list of a flat chain is read to its end. -/
theorem following_flat {top : List (Key × Value)} {es : List (List (Key × Value))}
    (h : ∀ e ∈ es, Entries.get? e (.text "next") = none) :
    following (Entries.put top (.text "next") (.record [("blocks", .list (es.map .dict))])) =
      es.map fun e => hangingEntry (.dict e) := by
  unfold following
  rw [Entries.get?_put_text, if_pos rfl]
  exact listed_eq_map h

theorem following_nested (top : List (Key × Value)) (e : List (Key × Value))
    (rest : List (List (Key × Value))) :
    following (Entries.put top (.text "next") (.record [("block", nested e rest)])) =
      (e :: rest).map fun e => hangingEntry (.dict e) := by
  rw [← after_nested top, nested]
  unfold following
  rw [Entries.get?_put_text, if_pos rfl]
  rfl

theorem following_erase_next (top : List (Key × Value)) :
    following (Entries.erase top (.text "next")) = [] := by
  have hnext : Entries.get? (Entries.erase top (.text "next")) (.text "next") = none := by
    rw [Entries.get?_erase, if_pos (Key.beq_text_iff.mpr rfl)]
  rw [← after_erase_next top]
  unfold following
  rw [hnext]
  rfl

/-! ### Chains and documents -/

/-- What stands at the top of a chain, and the chain, for entries that agree in all but their links. -/
theorem strandOf_congr {es fs : List (Key × Value)}
    (h : ∀ k ≠ "next", Entries.get? es (.text k) = Entries.get? fs (.text k))
    (hf : following es = following fs) : strandOf (.dict es) = strandOf (.dict fs) := by
  have hentry (position : Value) : entryOf position (.dict es) = entryOf position (.dict fs) :=
    entryOf_congr position fun k hk => h k fun e => by
      rw [e] at hk
      exact absurd hk (by decide)
  dsimp only [strandOf]
  simp only [h "x" (by decide), h "y" (by decide), hentry, hf]

/-- **Both forms of a chain have one outline.** -/
theorem strandOf_flat (top : List (Key × Value)) {es : List (List (Key × Value))}
    (h : ∀ e ∈ es, Entries.get? e (.text "next") = none) :
    strandOf (flat top es) = strandOf (nested top es) := by
  cases es with
  | nil =>
      refine strandOf_congr (fun k hk => ?_) ?_
      · rw [Entries.get?_put_text, if_neg hk, Entries.get?_erase_text top hk]
      · rw [following_erase_next]
        exact following_flat h
  | cons e rest =>
      refine strandOf_congr (fun k hk => ?_) ?_
      · rw [Entries.get?_put_text, if_neg hk, Entries.get?_put_text, if_neg hk]
      · rw [following_nested]
        exact following_flat h

/-- Only what its chains come to matters for the outline of a document. -/
theorem outline_congr (around inside : List (Key × Value)) {vs vs' : List Value}
    (h : vs.map strandOf = vs'.map strandOf) :
    outline (document around inside vs) = outline (document around inside vs') := by
  have hblocks (vs : List Value) : Entries.get? (Entries.put inside (.text "blocks") (.list vs))
      (.text "blocks") = some (.list vs) := by
    rw [Entries.get?_put_text, if_pos rfl]
  have hversion (vs : List Value) : Entries.get? (Entries.put inside (.text "blocks") (.list vs))
      (.text "languageVersion") = Entries.get? inside (.text "languageVersion") := by
    rw [Entries.get?_put_text, if_neg (by decide)]
  unfold document outline
  simp only [Entries.get?_put_text, if_pos, hblocks, hversion, Option.getD_some, h]

/-- **A chain is rebuilt alike from a list and from links.**  Wherever a chain stands in a document,
rebuilding the document answers the same ids, leaves the same workspace and tells listeners the same,
or ends with the same error at the same point, whether the blocks of the chain are in one list or
each in the link of the one before it. -/
theorem rebuild_flat (a : Audience σ) (around inside : List (Key × Value)) (before later : List Value)
    (top : List (Key × Value)) (es : List (List (Key × Value)))
    (h : ∀ e ∈ es, Entries.get? e (.text "next") = none) :
    rebuild a (document around inside (before ++ flat top es :: later)) =
      rebuild a (document around inside (before ++ nested top es :: later)) := by
  have hstrands : (before ++ flat top es :: later).map strandOf =
      (before ++ nested top es :: later).map strandOf := by
    rw [List.map_append, List.map_append, List.map_cons, List.map_cons, strandOf_flat top h]
  rw [rebuild, rebuild, outline_congr around inside hstrands]

/-! ### A chain that is not built to its end -/

namespace Stopping

variable {s : Scene (List Change)} {es : List (Key × Block)} {x : String}

/-- A change is remembered, whatever it is. -/
theorem ends_told {ns : List Notice} {good : Unit → Scene (List Change) → Prop}
    {bad : Error → Scene (List Change) → Prop} (hg : ∀ t, t.workspace = s.workspace → good () t) :
    Ends (Act.tellAll .journal ns) s good bad := by
  induction ns generalizing s with
  | nil => exact Ends.pure (hg s rfl)
  | cons n ns ih =>
      refine Ends.bind (Ends.bind (Ends.get ?_))
      dsimp only
      split
      · exact Ends.bind (Ends.modify (Ends.pure (ih fun t ht => hg t ht)))
      · exact Ends.pure (ih hg)

/-- What an entry says of a block that waits. -/
def head (x : String) : Head := ⟨some (.text "wait"), .text x, origin, [], false⟩

/-- A block that waits is built. -/
theorem ends_grow_wait (h : s.workspace.Listed .stock 0 es) (hn : Entries.get? es (.text x) = none)
    {good : Key → Scene (List Change) → Prop} {bad : Error → Scene (List Change) → Prop}
    (hg : ∀ t, t.workspace.Listed .stock 0 (Entries.put es (.text x) (Severing.waiter x)) →
      good (.text x) t) : Ends (grow .journal (.block (head x) [])) s good bad := by
  have hc : Edit.Creates s.workspace (.text "wait") (.text x) origin [] Vocabulary.wait
      Vocabulary.wait.defaults [.float (.zero false), .float (.zero false)] :=
    creates_waitAt h.vocabulary ((h.find?_eq _).trans hn) _
  refine Ends.bind (Ends.bind (Ends.bind (Act.ends_edit (Edit.ends_create (.inr ⟨x, rfl⟩)
    (fun e hno => absurd hc (hno _ _ _)) fun d fields coords hc' => ?_))))
  obtain rfl := Except.ok.inj (hc.declared.symm.trans hc'.declared)
  obtain rfl := Except.ok.inj (hc.filled.symm.trans hc'.filled)
  obtain rfl := Except.ok.inj (hc.placed.symm.trans hc'.placed)
  refine Ends.bind (ends_told fun t ht => Ends.pure (Ends.pure (Ends.pure (hg t ?_))))
  rw [ht]
  exact h.insert x (Severing.waiter x)

/-- A block of a type that there is not is not built. -/
theorem ends_grow_stop (h : s.workspace.Listed .stock 0 es)
    {good : Key → Scene (List Change) → Prop} {bad : Error → Scene (List Change) → Prop}
    (hb : bad (.unknownType (.text "stop")) s) :
    Ends (grow .journal (.block ⟨some (.text "stop"), .null, origin, [], false⟩ [])) s good bad := by
  refine Ends.bind (Ends.bind (Ends.bind (Act.ends_edit ?_)))
  refine Ends.bind (Ends.get (Ends.bind (Edit.ends_ofExcept_ok (a := .text "stop") rfl ?_)))
  rw [h.vocabulary]
  exact Ends.bind (Ends.throw hb)

/-- The blocks that are there when building ends. -/
def left : List (Key × Block) :=
  [(.text "w", { Severing.waiter "w" with next := .text "v" }),
    (.text "v", { Severing.waiter "v" with parent := .text "w" })]

/-- The chain of three blocks, the last one of a type that there is not. -/
def strand : Strand :=
  ⟨.block (head "w") [], [.block (head "v") [],
    .block ⟨some (.text "stop"), .null, origin, [], false⟩ []]⟩

theorem ends_growStrand_stop (h : s.workspace.Listed .stock 0 []) :
    Ends (growStrand .journal strand) s (fun _ _ => False) fun e u =>
      e = .unknownType (.text "stop") ∧ u.workspace.entries = left := by
  refine Ends.bind (ends_grow_wait h rfl fun s h => Ends.bind (Ends.bind ?_))
  refine ends_grow_wait h rfl fun s h => Ends.bind (Ends.bind (Act.ends_edit ?_))
  have hbelow : s.workspace.hangsFrom (.text "v") (.text "w") = .ok false :=
    h.hangsFrom_loose (b := Severing.waiter "w") rfl rfl rfl (by decide)
  refine h.ends_connectNext_free (p := Severing.waiter "w") (c := Severing.waiter "v") rfl rfl
    (h.declarationOf_eq rfl rfl) rfl (h.declarationOf_eq rfl rfl) rfl hbelow rfl rfl rfl
    fun ns u hu => ends_told fun t ht => Ends.bind ?_
  have ht : t.workspace.Listed .stock 0 left := ht ▸ hu
  exact ends_grow_stop ht ⟨rfl, ht.entries⟩

end Stopping

open Stopping in
/-- Three blocks in a row, the last one of a type that there is not: from a list as from links the
first two are built and linked. -/
theorem rebuild_flat_stopping : ∃ u : Scene (List Change), u.workspace.entries = left ∧
    rebuild .journal (.record [("blocks", .record [("blocks", .list [.record
        [("type", .text "wait"), ("id", .text "w"), ("next", .record [("blocks", .list
          [.record [("type", .text "wait"), ("id", .text "v")],
            .record [("type", .text "stop")]])])]])])])
        { workspace := Workspace.new .stock 0, audience := [] } =
      .error (.damage (.rebuild (.unknownType (.text "stop")))) u ∧
    rebuild .journal (.record [("blocks", .record [("blocks", .list [.record
        [("type", .text "wait"), ("id", .text "w"), ("next", .record [("block", .record
          [("type", .text "wait"), ("id", .text "v"), ("next", .record [("block", .record
            [("type", .text "stop")])])])])]])])])
        { workspace := Workspace.new .stock 0, audience := [] } =
      .error (.damage (.rebuild (.unknownType (.text "stop")))) u := by
  let entry (x : String) : List (Key × Value) := [(.text "type", .text "wait"), (.text "id", .text x)]
  let stop : List (Key × Value) := [(.text "type", .text "stop")]
  let s : Scene (List Change) := { workspace := Workspace.new .stock 0, audience := [] }
  have hnext : ∀ e ∈ [entry "v", stop], Entries.get? e (.text "next") = none := by
    intro e he
    simp only [List.mem_cons, List.not_mem_nil, or_false] at he
    rcases he with rfl | rfl <;> rfl
  have hflat := congrFun (rebuild_flat .journal [] [] [] [] (entry "w") _ hnext) s
  have hends : Ends (rebuild .journal (document [] [] [nested (entry "w") [entry "v", stop]])) s
      (fun _ _ => False) fun e u => e = .damage (.rebuild (.unknownType (.text "stop"))) ∧
        u.workspace.entries = left := by
    refine Act.ends_mapError (Ends.bind ((ends_growStrand_stop ⟨rfl, rfl, rfl⟩).mono
      (fun _ _ hno => hno.elim) fun e u he => ⟨?_, he.2⟩))
    rw [he.1]
    rfl
  obtain ⟨_, u, hu, rfl, hleft⟩ := hends.exists_error
  exact ⟨u, hleft, hflat.trans hu, hu⟩

end Blockwork.Snapshot
