import Std.Data.HashMap.Lemmas
import Blockwork.Entries.Cells
import Blockwork.Workspace.Block

/-!
# Block tables

The blocks of a workspace under their keys, in the order of their creation.  Each block has a cell,
in that order, which stays empty when the block is deleted, and a hash index tells the cell of a
key; so a change takes the same time however many blocks there are.  Every law is stated on the list
of the entries (`Table.entries`), which does not show the empty cells.
-/

namespace Blockwork

/-- Blocks under different keys, in order. -/
structure Table where
  /-- The cell of a key. -/
  places : Std.HashMap Key Nat
  /-- The blocks with their keys; the cells of deleted blocks are empty. -/
  cells : Array (Option (Key × Block))
  agrees : ∀ k i, places[k]? = some i ↔ ∃ e : Key × Block, cells[i]? = some (some e) ∧ e.1 == k
  counted : places.size = (Entries.ofCells cells.toList).length

namespace Table

/-- The blocks with their keys in the order of their creation. -/
def entries (t : Table) : List (Key × Block) := Entries.ofCells t.cells.toList

/-- The number of blocks. -/
def size (t : Table) : Nat := t.places.size

/-- The cell of a key with what it holds. -/
def locate (t : Table) (k : Key) : Option (Nat × Key × Block) :=
  t.places[k]?.bind fun i => (t.cells[i]?).join.map (i, ·)

/-- The block under a key. -/
def find? (t : Table) (k : Key) : Option Block :=
  match t.places[k]? with
  | some i =>
    match t.cells[i]? with
    | some (some e) => some e.2
    | _ => none
  | none => none

/-- Whether there is a block under a key. -/
def contains (t : Table) (k : Key) : Bool := (t.find? k).isSome

/-- The place of a key in the order of creation. -/
def place? (t : Table) (k : Key) : Option Nat := t.entries.findIdx? (·.1 == k)

theorem locate_eq_some {t : Table} {k : Key} {i : Nat} {e : Key × Block} :
    t.locate k = some (i, e) ↔ t.cells[i]? = some (some e) ∧ e.1 == k := by
  unfold locate
  constructor
  · intro h
    obtain ⟨j, hj, h⟩ := Option.bind_eq_some_iff.1 h
    obtain ⟨d, hd, hk⟩ := (t.agrees k j).1 hj
    rw [hd] at h
    obtain ⟨rfl, rfl⟩ : j = i ∧ d = e := by simpa using h
    exact ⟨hd, hk⟩
  · rintro ⟨he, hk⟩
    simp [(t.agrees k i).2 ⟨e, he, hk⟩, he]

theorem locate_eq_none {t : Table} {k : Key} : t.locate k = none ↔ t.places[k]? = none := by
  unfold locate
  cases h : t.places[k]? with
  | none => simp
  | some i =>
    obtain ⟨d, hd, -⟩ := (t.agrees k i).1 h
    simp [hd]

theorem find?_eq_locate (t : Table) (k : Key) : t.find? k = (t.locate k).map (·.2.2) := by
  unfold find? locate
  cases h : t.places[k]? with
  | none => rfl
  | some i =>
    obtain ⟨d, hd, -⟩ := (t.agrees k i).1 h
    simp [hd]

/-- Every key is in at most one cell. -/
theorem single (t : Table) : Entries.Single t.cells.toList := fun i j d e hi hj same => by
  rw [Array.getElem?_toList] at hi hj
  have hd := (t.agrees e.1 i).2 ⟨d, hi, same⟩
  rw [(t.agrees e.1 j).2 ⟨e, hj, BEq.rfl⟩] at hd
  exact (Option.some.inj hd).symm

theorem unequal {t : Table} {k : Key} (h : t.locate k = none) :
    ∀ e ∈ t.entries, (e.1 == k) = false := fun e he => by
  obtain ⟨i, hi⟩ := Entries.mem_ofCells.1 he
  rw [Array.getElem?_toList] at hi
  rw [Bool.eq_false_iff]
  intro hk
  exact nomatch h.symm.trans (locate_eq_some.2 ⟨hi, hk⟩)

/-! ### Changes -/

/-- No blocks. -/
def empty : Table := ⟨∅, #[], by simp, by simp⟩

/-- The table with `b` in the cell of a key, which holds the form `j` of the key. -/
def write (t : Table) (i : Nat) (j : Key) (b : Block)
    (h : ∃ c, t.cells[i]? = some (some (j, c))) : Table where
  cells := t.cells.setIfInBounds i (some (j, b))
  places := t.places
  agrees k n := by
    obtain ⟨c, hc⟩ := h
    obtain ⟨inside, -⟩ := Array.getElem?_eq_some_iff.1 hc
    rw [t.agrees, Array.getElem?_setIfInBounds]
    split
    · subst n
      simp [hc]
    · rfl
  counted := by
    obtain ⟨c, hc⟩ := h
    rw [t.counted, Array.toList_setIfInBounds, Entries.length_ofCells_set (e := (j, c))]
    rwa [Array.getElem?_toList]

/-- The table with `b` in a new cell, under a key that has none. -/
def append (t : Table) (k : Key) (b : Block) (h : t.places[k]? = none) : Table where
  places := t.places.insert k t.cells.size
  cells := t.cells.push (some (k, b))
  agrees l n := by
    rw [Std.HashMap.getElem?_insert, Array.getElem?_push]
    by_cases hn : n = t.cells.size
    · subst n
      by_cases hl : k == l
      · simp [hl]
      · have absent : ¬ ∃ e : Key × Block, t.cells[t.cells.size]? = some (some e) ∧ e.1 == l := by
          simp
        rw [← t.agrees] at absent
        simpa [hl] using absent
    · by_cases hl : k == l
      · have absent : ¬ ∃ e : Key × Block, t.cells[n]? = some (some e) ∧ e.1 == l := by
          rintro ⟨e, he, hel⟩
          exact nomatch h.symm.trans ((t.agrees k n).2 ⟨e, he, BEq.trans hel (BEq.symm hl)⟩)
        simpa [hl, hn, Ne.symm hn] using absent
      · simp [hl, hn, t.agrees]
  counted := by
    have fresh : k ∉ t.places := by simp [Std.HashMap.mem_iff_isSome_getElem?, h]
    simp [Std.HashMap.size_insert, fresh, t.counted, Entries.ofCells_append]

/-- The table without the block in the cell of a key. -/
def remove (t : Table) (i : Nat) (k : Key) (h : t.places[k]? = some i) : Table where
  cells := t.cells.setIfInBounds i none
  places := t.places.erase k
  agrees l n := by
    obtain ⟨e, he, hk⟩ := (t.agrees k i).1 h
    obtain ⟨inside, -⟩ := Array.getElem?_eq_some_iff.1 he
    rw [Std.HashMap.getElem?_erase, Array.getElem?_setIfInBounds]
    by_cases hn : i = n
    · subst n
      by_cases hl : k == l
      · simp [hl, inside]
      · have absent : t.places[l]? ≠ some i := fun hi => by
          obtain ⟨d, hd, hdl⟩ := (t.agrees l i).1 hi
          obtain rfl : e = d := by simpa [he] using hd
          exact hl (BEq.trans (BEq.symm hk) hdl)
        simp [hl, inside, absent]
    · by_cases hl : k == l
      · have absent : ¬ ∃ e : Key × Block, t.cells[n]? = some (some e) ∧ e.1 == l := by
          rintro ⟨d, hd, hdl⟩
          have := (t.agrees k n).2 ⟨d, hd, BEq.trans hdl (BEq.symm hl)⟩
          exact hn (Option.some.inj (h.symm.trans this))
        simpa [hl, hn] using absent
      · simp [hl, hn, t.agrees]
  counted := by
    obtain ⟨e, he, -⟩ := (t.agrees k i).1 h
    have there : k ∈ t.places := by simp [Std.HashMap.mem_iff_isSome_getElem?, h]
    have := Entries.length_ofCells_clear (by rwa [← Array.getElem?_toList] at he)
    rw [Std.HashMap.size_erase, if_pos there, t.counted, Array.toList_setIfInBounds, ← this]
    rfl

/-- The table with `b` under a key: in the place of the block that is there, or at the end. -/
def put (t : Table) (k : Key) (b : Block) : Table :=
  match h : t.locate k with
  | some (i, j, c) => t.write i j b ⟨c, (locate_eq_some.1 h).1⟩
  | none => t.append k b (locate_eq_none.1 h)

/-- The table without the block under a key. -/
def erase (t : Table) (k : Key) : Table :=
  match h : t.places[k]? with
  | some i => t.remove i k h
  | none => t

/-- The table with the block under a key changed by `f`. -/
def modify (t : Table) (k : Key) (f : Block → Block) : Table :=
  match t.find? k with
  | some b => t.put k (f b)
  | none => t

/-! ### Laws -/

@[simp] theorem entries_empty : empty.entries = [] := rfl

theorem entries_put (t : Table) (k : Key) (b : Block) :
    (t.put k b).entries = Entries.put t.entries k b := by
  unfold put
  split
  · rename_i i j c h
    obtain ⟨hc, hk⟩ := locate_eq_some.1 h
    rw [← Array.getElem?_toList] at hc
    rw [entries, write, Array.toList_setIfInBounds]
    exact Entries.ofCells_set t.single hc hk b
  · rename_i h
    rw [Entries.put_of_unequal (unequal h)]
    simp [entries, append, Entries.ofCells_append]

theorem entries_erase (t : Table) (k : Key) :
    (t.erase k).entries = Entries.erase t.entries k := by
  unfold erase
  split
  · rename_i i h
    obtain ⟨e, he, hk⟩ := (t.agrees k i).1 h
    rw [← Array.getElem?_toList] at he
    rw [entries, remove, Array.toList_setIfInBounds]
    exact Entries.ofCells_clear t.single he hk
  · rename_i h
    exact (Entries.erase_of_unequal (unequal (locate_eq_none.2 h))).symm

theorem size_eq (t : Table) : t.size = t.entries.length := t.counted

theorem find?_eq (t : Table) (k : Key) : t.find? k = Entries.get? t.entries k := by
  rw [find?_eq_locate]
  cases h : t.locate k with
  | none => exact (Entries.get?_of_unequal (unequal h)).symm
  | some p =>
    obtain ⟨hc, hk⟩ := locate_eq_some.1 h
    rw [← Array.getElem?_toList] at hc
    exact (Entries.get?_ofCells t.single hc hk).symm

theorem find?_put (t : Table) (j k : Key) (b : Block) :
    (t.put k b).find? j = if k == j then some b else t.find? j := by
  rw [find?_eq, entries_put, Entries.get?_put, find?_eq]

theorem find?_erase (t : Table) (j k : Key) :
    (t.erase k).find? j = if k == j then none else t.find? j := by
  rw [find?_eq, entries_erase, Entries.get?_erase, find?_eq]

theorem find?_congr (t : Table) {j k : Key} (h : j == k) : t.find? j = t.find? k := by
  unfold find?
  rw [Std.HashMap.getElem?_congr h]

theorem find?_modify (t : Table) (j k : Key) (f : Block → Block) :
    (t.modify k f).find? j = if k == j then (t.find? j).map f else t.find? j := by
  unfold modify
  split <;> rename_i e
  · rw [find?_put]
    split
    · rename_i h
      rw [← t.find?_congr h, e]
      rfl
    · rfl
  · split
    · rename_i h
      rw [← t.find?_congr h, e]
      rfl
    · rfl

/-- Different entries are under different keys. -/
theorem distinct (t : Table) : (t.entries.map (·.1.name)).Nodup := by
  suffices ∀ {cells : List (Option (Key × Block))}, Entries.Single cells →
      ((Entries.ofCells cells).map (·.1.name)).Nodup from this t.single
  intro cells
  induction cells with
  | nil => simp
  | cons c cells ih =>
    intro h
    cases c with
    | none => simpa using ih h.tail
    | some e =>
      rw [Entries.ofCells_some, List.map_cons, List.nodup_cons]
      refine ⟨fun he => ?_, ih h.tail⟩
      obtain ⟨d, hd, same⟩ := List.mem_map.1 he
      obtain ⟨i, hi⟩ := Entries.mem_ofCells.1 hd
      exact nomatch h 0 (i + 1) e d rfl hi ((Key.beq_iff_name ..).2 same.symm)

end Table

end Blockwork
