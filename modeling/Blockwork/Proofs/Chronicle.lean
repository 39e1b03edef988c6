import Blockwork.Proofs.Contents
import Blockwork.Proofs.Singles

/-!
# Chronicles

Histories in which blocks may be given any ids, whatever the sockets of their types are named
(`Chronicle`).  A workspace need not be sound then, but what is steady holds all the same
(`Chronicle.holds`), and so does what stands of the single blocks, whatever edits do to them
(`Chronicle.blocks`).  Such is that the fields of a block are those of its type, in order, and that
it is shown in the colour of its type (`Chronicle.dressed`).
-/

namespace Blockwork

variable {σ : Type}

/-! ### Chronicles -/

/-- Whether an audience changes a workspace by edits only. -/
def Audience.Docile (a : Audience σ) : Prop := ∀ P : Workspace → Prop, Steady P →
  (∀ w muted, P w → P { w with muted }) → ∀ c, Keeps (fun s : Scene σ => P s.workspace) (a.hear c)

theorem Audience.docile_journal : Audience.journal.Docile := fun _ _ _ _ _ hs => Ends.modify hs

/-- The workspaces that come of a new one by calls, also by calls that fail, whatever ids are given
to blocks, on whatever scene. -/
inductive Chronicle (a : Audience σ) (v : Vocabulary) : Workspace → Prop where
  | new (created : Nat) : Chronicle a v (Workspace.new v created)
  | call {s : Scene σ} (c : Call) : Chronicle a v s.workspace → Chronicle a v (c.after a s).workspace

/-- Histories are chronicles in which ids are given with care. -/
theorem History.chronicle {a : Audience σ} {v : Vocabulary} {w : Workspace} (h : History a v w) :
    Chronicle a v w := by
  induction h with
  | new created => exact .new created
  | call _ _ ih => exact .call _ ih

section

variable {a : Audience σ} {P : Workspace → Prop}

/-- A call keeps what is steady, and does not depend on how often changes are kept from the
audience. -/
theorem Steady.keeps_call (h : Steady P) (hm : ∀ w muted, P w → P { w with muted }) (ha : a.Docile)
    (c : Call) : Keeps (fun s : Scene σ => P s.workspace) (c.act a) := fun _ hs =>
  have loads := h.loads (ha P h hm)
  c.ends_act loads hs (fun _ _ _ _ _ => Act.keeps_edit (h.keeps_create _ _ _ _))
    (fun d _ => Act.keeps_edit (h.keeps_command d))
    fun archive _ => loads.ends_load (fun _ muted => hm _ muted) archive hs fun _ _ => h.builds _

variable {v : Vocabulary} {w : Workspace}

/-- **What is steady holds of every chronicle.** -/
theorem Chronicle.holds (h : Chronicle a v w) (ha : a.Docile) (hP : Steady P)
    (hm : ∀ w muted, P w → P { w with muted }) (hnew : ∀ created, P (Workspace.new v created)) :
    P w := by
  induction h with
  | new created => exact hnew created
  | call c _ ih => exact (hP.keeps_call hm ha c).stateAfter ih

end

/-! ### What stands of single blocks -/

/-- Whether a property of the blocks of a vocabulary stands, whatever edits do to a block. -/
structure Standing (v : Vocabulary) (Q : Block → Prop) : Prop where
  changed : ∀ {b : Block} {f : Block → Block}, Plain f → Q b → Q (f b)
  written : ∀ {b : Block} {d : Declaration} {s : Socket} {asked value new : Value} {name : Key},
    (do v.get (← b.type.toKey)) = .ok d → d.field? asked = some s → asked.key? = some name →
      s.coerce value = .ok new → Q b → Q { b with fields := Entries.put b.fields name new }
  moved : ∀ {b : Block} {position : Value} {coords : List Value},
    Edit.coordinates position = .ok coords → Q b → Q { b with position := coords }
  raised : ∀ {b c : Block}, Q b → Q c → Q { c with position := b.position }
  created : ∀ {b : Block} {d : Declaration} {given : List (Key × Value)} {position : Value},
    (do v.get (← b.type.toKey)) = .ok d → Edit.filled b.type d given = .ok b.fields →
      Edit.coordinates position = .ok b.position → b.colour = .text d.colour.hex →
        b.savedColour = .null → Q b

namespace Standing

variable {v : Vocabulary} {Q : Block → Prop}

/-- What stands of single blocks is steady. -/
theorem steady (h : Standing v Q) :
    Steady fun w => w.vocabulary = v ∧ ∀ k b, w.find? k = some b → Q b where
  changed k f hf hw := by
    refine ⟨hw.1, fun j b hb => ?_⟩
    obtain ⟨c, hc, rfl | rfl⟩ := Workspace.find?_update_exists hb
    · exact hw.2 j _ hc
    · exact h.changed hf (hw.2 j c hc)
  written {w k name new} hn hw := by
    obtain ⟨b, d, s, asked, value, hb, hd, hs, hname, hnew⟩ := hn
    refine ⟨hw.1, fun j c hc => ?_⟩
    obtain ⟨hkj, b', hb', rfl⟩ | ⟨-, hc⟩ := Workspace.find?_update hc
    · have hb'' : w.find? k = some b' := (w.table.find?_congr hkj).trans hb'
      obtain rfl := Option.some.inj (hb.symm.trans hb'')
      refine h.written ?_ hs hname hnew (hw.2 j b hb')
      rw [← hw.1]
      exact hd
    · exact hw.2 j c hc
  moved k hc hw := by
    refine ⟨hw.1, fun j b hb => ?_⟩
    obtain ⟨c, hc', rfl | rfl⟩ := Workspace.find?_update_exists hb
    · exact hw.2 j _ hc'
    · exact h.moved hc (hw.2 j c hc')
  raised k hb hw hw' := by
    refine ⟨hw'.1, fun j c hc => ?_⟩
    obtain ⟨c', hc', rfl | rfl⟩ := Workspace.find?_update_exists hc
    · exact hw'.2 j _ hc'
    · exact h.raised (hw.2 _ _ hb) (hw'.2 j c' hc')
  added {w} k b n hb hf hw := by
    refine ⟨hw.1, fun j c hc => ?_⟩
    change (w.table.put k b).find? j = some c at hc
    rw [Table.find?_put] at hc
    split at hc
    · obtain rfl := Option.some.inj hc
      obtain ⟨d, hd, hcolour⟩ := hb.declared
      obtain ⟨⟨d', given, hd', hgiven⟩, position, hposition⟩ := hf
      obtain rfl := Except.ok.inj (hd.symm.trans hd')
      exact h.created (hw.1 ▸ hd) hgiven hposition hcolour hb.saved
    · exact hw.2 j c hc
  taken {w} k hw := by
    refine ⟨hw.1, fun j c hc => ?_⟩
    change (w.table.erase k).find? j = some c at hc
    rw [Table.find?_erase] at hc
    split at hc
    · cases hc
    · exact hw.2 j c hc
  dragged _ hw := hw

end Standing

theorem Workspace.lasting_vocabulary (v : Vocabulary) : Lasting fun w => w.vocabulary = v where
  changed _ _ _ h := h
  added _ _ _ _ h := h
  taken _ h := h
  dragged _ h := h

namespace Chronicle

variable {a : Audience σ} {v : Vocabulary} {w : Workspace} {Q : Block → Prop}

theorem kept (h : Chronicle a v w) (ha : a.Docile) (hQ : Standing v.orStock Q) :
    w.vocabulary = v.orStock ∧ ∀ k b, w.find? k = some b → Q b := by
  refine h.holds ha hQ.steady (fun _ _ hw => hw) fun created => ⟨rfl, fun k b hb => ?_⟩
  rw [show (Workspace.new v created).find? k = none from Table.find?_eq _ _] at hb
  cases hb

theorem vocabulary (h : Chronicle a v w) (ha : a.Docile) : w.vocabulary = v.orStock :=
  h.holds ha (Workspace.lasting_vocabulary _).steady (fun _ _ hw => hw) fun _ => rfl

/-- **What stands of single blocks holds of every block of a chronicle.** -/
theorem blocks (h : Chronicle a v w) (ha : a.Docile) (hQ : Standing v.orStock Q) {k : Key}
    {b : Block} (hb : w.find? k = some b) : Q b := (h.kept ha hQ).2 k b hb

theorem filed (h : Chronicle a v w) (ha : a.Docile) : w.Filed :=
  h.holds ha Workspace.lasting_filed.steady (fun _ _ hw => hw) (Workspace.filed_new v)

end Chronicle

/-! ### Fields and colours -/

/-- Values that are equal are keys that name the same thing. -/
theorem Value.exists_key?_of_same {u v : Value} (h : u.same v = true) {k : Key}
    (hk : v.key? = some k) : ∃ j, u.key? = some j ∧ (j == k) = true := by
  have halike : u.alike v = true := (Bool.and_eq_true_iff.mp h).1
  cases v with
  | list | dict => cases hk
  | null | bool | int | float | text =>
      cases u <;> simp_all [alike, key?, BEq.beq]

/-- A field that is asked for is among those that a new block has. -/
theorem Declaration.any_defaults {d : Declaration} {s : Socket} {asked : Value} {name : Key}
    (hs : d.field? asked = some s) (hname : asked.key? = some name) :
    d.defaults.any (·.1 == name) = true := by
  obtain ⟨hmem, hsame⟩ := mem_fields_of_field? hs
  obtain ⟨j, hj, hjn⟩ := Value.exists_key?_of_same hsame hname
  exact List.any_eq_true.mpr ⟨_, mem_defaults hmem hj, hjn⟩

/-- The fields of a block keep their names and their order when a field is written. -/
theorem Declaration.keys_put {d : Declaration} {s : Socket} {asked new : Value} {name : Key}
    {fields : List (Key × Value)} (h : fields.map (·.1) = d.defaults.map (·.1))
    (hs : d.field? asked = some s) (hname : asked.key? = some name) :
    (Entries.put fields name new).map (·.1) = d.defaults.map (·.1) := by
  have hany : fields.any (·.1 == name) = true := by
    have hd := any_defaults hs hname
    rw [← Function.comp_def (· == name) Prod.fst, ← List.any_map, h, List.any_map]
    exact hd
  rw [Entries.map_fst_put, if_pos hany, h]

/-- Whether a block has the fields of its type, in order, two numbers for a position, and the colour
of its type. -/
structure Block.Dressed (v : Vocabulary) (b : Block) (d : Declaration) : Prop where
  declared : (do v.get (← b.type.toKey)) = .ok d
  keys : b.fields.map (·.1) = d.defaults.map (·.1)
  placed : ∃ x y, b.position = [.float x, .float y]
  colour : b.colour = .text d.colour.hex
  saved : b.savedColour = .null

theorem Block.standing_dressed (v : Vocabulary) : Standing v fun b => ∃ d, b.Dressed v d where
  changed {b f} hf hb := by
    obtain ⟨d, hd⟩ := hb
    obtain ⟨-, htype, hcolour, hsaved, hfields, hposition⟩ := hf b
    exact ⟨d, htype ▸ hd.declared, hfields ▸ hd.keys, hposition ▸ hd.placed, hcolour.trans hd.colour,
      hsaved.trans hd.saved⟩
  written hd hs hname _ hb := by
    obtain ⟨d', hd'⟩ := hb
    obtain rfl := Except.ok.inj (hd.symm.trans hd'.declared)
    exact ⟨_, hd, Declaration.keys_put hd'.keys hs hname, hd'.placed, hd'.colour, hd'.saved⟩
  moved hc hb := by
    obtain ⟨d, hd⟩ := hb
    exact ⟨d, hd.declared, hd.keys, Edit.exists_of_coordinates hc, hd.colour, hd.saved⟩
  raised hb hc := by
    obtain ⟨d, hd⟩ := hb
    obtain ⟨e, he⟩ := hc
    exact ⟨e, he.declared, he.keys, hd.placed, he.colour, he.saved⟩
  created {b d given position} hd hf hc hcolour hsaved := by
    refine ⟨d, hd, ?_, Edit.exists_of_coordinates hc, hcolour, hsaved⟩
    exact Declaration.filled_induct (P := fun fields => fields.map (·.1) = d.defaults.map (·.1)) hf rfl
      fun hs hname _ hkeys => Declaration.keys_put hkeys hs hname

/-- **The blocks of a chronicle have the fields and the colours of their types.** -/
theorem Chronicle.dressed {a : Audience σ} {v : Vocabulary} {w : Workspace} (h : Chronicle a v w)
    (ha : a.Docile) {k : Key} {b : Block} (hb : w.find? k = some b) : ∃ d, b.Dressed v.orStock d :=
  h.blocks ha (Block.standing_dressed _) hb

/-! ### What is done for a journal -/

section

variable {v : Vocabulary} {w : Workspace} (h : Chronicle .journal v w)

include h

/-- What is created for a journal belongs to its chronicle. -/
theorem Chronicle.insert {x : String} {type position : Value} {d : Declaration}
    {given fields : List (Key × Value)} {coords : List Value}
    (hc : Edit.Creates w type (.text x) position given d fields coords) :
    Chronicle .journal v (w.insert x (Edit.newBlock x type d fields coords)) := by
  have hcall := h.call (s := { workspace := w, audience := [] })
    (.create type (.text x) position given)
  rwa [Call.workspace_after_create Audience.aloof_journal, Edit.stateAfter_create hc] at hcall

/-- A command takes a chronicle to what its edit comes to. -/
theorem Chronicle.exists_command (c : Command) {P : Workspace → Prop}
    (he : Ends c.edit w (fun _ u => P u) fun _ u => P u) : ∃ u, Chronicle .journal v u ∧ P u := by
  have hcall := h.call (s := { workspace := w, audience := [] }) (.command c)
  rw [Call.workspace_after_command Audience.aloof_journal] at hcall
  exact ⟨_, hcall, he.stateAfter⟩

end

/-- A block that waits, at a height. -/
def waitAt (x : String) (y : Binary64) : Block :=
  Edit.newBlock x (.text "wait") Vocabulary.wait Vocabulary.wait.defaults
    [.float (.zero false), .float y]

theorem creates_waitAt {w : Workspace} (hw : w.vocabulary = .stock) {x : String}
    (hx : w.block? x = none) (y : Binary64) :
    Edit.Creates w (.text "wait") (.text x) (.list [.float (.zero false), .float y]) []
      Vocabulary.wait Vocabulary.wait.defaults [.float (.zero false), .float y] where
  declared := by rw [hw]; rfl
  filled := rfl
  placed := rfl
  unused := .inr hx

/-- A block that waits takes its place behind those that are there. -/
theorem History.exists_waiting {w : Workspace} {muted : Nat} {es : List (Key × Block)} {x : String}
    (hw : History .journal .stock w) (h : w.Listed .stock muted es) (hx : x ≠ "")
    (hl : x.length < 5) (hn : Entries.get? es (.text x) = none) (y : Binary64) :
    ∃ u, History .journal .stock u ∧
      u.Listed .stock muted (Entries.put es (.text x) (waitAt x y)) :=
  hw.exists_listed h hx hl (creates_waitAt h.vocabulary ((h.find?_eq _).trans hn) y)

/-! ### A chronicle that is not sound -/

namespace Severing

open Workspace (Listed)

variable {w : Workspace} {muted : Nat}

/-- A block that waits. -/
def waiter (x : String) : Block := waitAt x (.zero false)

/-- The blocks of a workspace where a block with an empty id hangs from one that is not there. -/
def severed : List (Key × Block) :=
  [(.text "", { waiter "" with next := .text "n", parent := .text "p" }),
    (.text "n", { waiter "n" with parent := .text "" })]

/-- The blocks before the first one is deleted. -/
def chained : List (Key × Block) := (.text "p", { waiter "p" with next := .text "" }) :: severed

theorem declarationOf_waiter {es : List (Key × Block)} (h : w.Listed .stock muted es) {b : Block}
    (hb : b.type = .text "wait") : w.declarationOf b = .ok Vocabulary.wait :=
  h.declarationOf_eq hb rfl

/-- A new block takes its place behind those that are there. -/
theorem exists_waiter {es : List (Key × Block)} (hw : Chronicle .journal .stock w)
    (h : w.Listed .stock muted es) (x : String) (hn : Entries.get? es (.text x) = none) :
    ∃ u, Chronicle .journal .stock u ∧ u.Listed .stock muted (Entries.put es (.text x) (waiter x)) :=
  ⟨_, hw.insert (creates_waitAt h.vocabulary ((h.find?_eq _).trans hn) _), h.insert x (waiter x)⟩

/-- Where three blocks hang nowhere, the second is let follow the first, and the third the second. -/
theorem exists_chained : ∃ w, Chronicle .journal .stock w ∧ w.Listed .stock 0 chained := by
  obtain ⟨w, hw, h⟩ := exists_waiter (.new 0) (Workspace.listed_new rfl 0) "p" rfl
  obtain ⟨w, hw, h⟩ := exists_waiter hw h "" rfl
  obtain ⟨w, hw, h⟩ := exists_waiter hw h "n" rfl
  have h : w.Listed .stock 0
      [(.text "p", waiter "p"), (.text "", waiter ""), (.text "n", waiter "n")] := h
  have hbelow : w.hangsFrom (.text "") (.text "p") = .ok false :=
    h.hangsFrom_loose (b := waiter "p") rfl rfl rfl (by decide)
  obtain ⟨w, hw, h⟩ := hw.exists_command (.connectNext (.text "p") (.text ""))
    (P := fun u => u.Listed .stock 0 [(.text "p", { waiter "p" with next := .text "" }),
      (.text "", { waiter "" with parent := .text "p" }), (.text "n", waiter "n")])
    (h.ends_connectNext_free (p := waiter "p") (c := waiter "") rfl rfl (declarationOf_waiter h rfl)
      rfl (declarationOf_waiter h rfl) rfl hbelow rfl rfl rfl fun _ _ hu => hu)
  have hbelow : w.hangsFrom (.text "n") (.text "") = .ok false := by
    rw [Workspace.hangsFrom, h.size_eq]
    simp only [List.length_cons, List.length_nil, Workspace.reachesUp, h.find?_eq]
    rfl
  exact hw.exists_command (.connectNext (.text "") (.text "n")) (h.ends_connectNext_free
    (p := { waiter "" with parent := .text "p" }) (c := waiter "n") rfl rfl
    (declarationOf_waiter h rfl) rfl (declarationOf_waiter h rfl) rfl hbelow rfl rfl rfl
    fun _ _ hu => hu)

/-- The first block is deleted, and the one with an empty id is not seen to follow it. -/
theorem exists_severed : ∃ w, Chronicle .journal .stock w ∧ w.Listed .stock 0 severed ∧
    w.dragging = false := by
  obtain ⟨w, hw, h⟩ := exists_chained
  have hsevers : Ends (Edit.delete (.text "p") false) w (fun _ u => u.Listed .stock 0 severed)
      fun _ u => u.Listed .stock 0 severed := by
    have hbelow : w.descendants (.text "p") = .ok [{ waiter "p" with next := .text "" }] := by
      rw [Workspace.descendants_eq, h.size_eq]
      simp only [chained, List.length_cons, Workspace.descendantsFrom, h.find?_eq]
      rfl
    unfold Edit.delete
    refine Ends.bind (h.ends_require rfl ?_)
    dsimp only
    rw [if_neg (by decide)]
    refine Ends.bind (h.ends_unplug_loose rfl rfl ?_)
    refine Ends.bind (Ends.get (Ends.bind (Edit.ends_ofExcept_ok hbelow ?_)))
    exact Ends.bind (h.ends_removeAll_cons (k := .text "p") rfl rfl fun w h _ =>
      Ends.pure (Ends.pure h))
  obtain ⟨w, hw, h⟩ := hw.exists_command (.delete (.text "p") false) hsevers
  exact hw.exists_command (.endDrag (.text "n"))
    (P := fun u => u.Listed .stock 0 severed ∧ u.dragging = false)
    (Ends.bind (h.ends_require rfl (Ends.bind (Ends.modify
      (Ends.pure ⟨⟨h.vocabulary, h.muted, h.entries⟩, rfl⟩)))))

/-- The blocks once the last one is taken out, before it turns out that there is nothing to take the
one before from. -/
def broken : List (Key × Block) :=
  [(.text "", { waiter "" with parent := .text "p" }), (.text "n", waiter "n")]

/-- The block with an empty id cannot be deleted, and the one behind it is let go all the same. -/
theorem ends_delete_severed (h : w.Listed .stock muted severed) :
    Ends (Edit.delete (.text "") true) w (fun _ _ => False)
      fun e u => e = .failure .missingKey ∧ u.Listed .stock muted broken ∧ u.dragging = w.dragging := by
  unfold Edit.delete
  refine Ends.bind (h.ends_require rfl ?_)
  dsimp only
  rw [if_pos (by decide)]
  refine Ends.bind (Edit.ends_follow rfl ((h.find?_eq (.text "n")).trans rfl) ?_)
  refine Ends.bind (h.ends_unplug_behind (j := .text "") rfl (by decide) rfl rfl rfl rfl
    fun u hu hd => ?_)
  have hu : u.Listed .stock muted broken := hu
  -- what the block with an empty id hangs from is not there
  refine Ends.bind (Ends.bind (Edit.ends_deref ((hu.find?_eq _).trans rfl) ?_))
  rw [if_neg (by decide)]
  refine Ends.bind (Ends.bind (Edit.ends_ofExcept_ok rfl (Ends.bind (Ends.bind (Ends.get ?_)))))
  rw [hu.find?_eq]
  exact Ends.throw ⟨rfl, hu, hd⟩

theorem tops_severed (h : w.Listed .stock muted severed) : w.tops = .ok [] := by
  refine Workspace.tops_of_spots ?_
  rw [Workspace.spots, h.entries]
  rfl

/-- So then there is a block at the top. -/
theorem sole_broken (h : w.Listed .stock muted broken) : w.Sole "n" (waiter "n") where
  tops := by
    have hspots : w.spots = .ok [⟨waiter "n", .float (.zero false), .float (.zero false), 1⟩] := by
      rw [Workspace.spots, h.entries]
      rfl
    simp only [Workspace.tops, hspots, Bind.bind, Except.bind, Workspace.sort_spot]
    rfl
  chain := by
    rw [Workspace.chain, h.size_eq]
    simp only [broken, List.length_cons, Workspace.chainFrom, h.find?_eq]
    rfl
  id := rfl
  inputs := rfl

end Severing

end Blockwork
