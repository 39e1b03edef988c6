import Blockwork.Entries

/-!
# Cells

Entries in a row of cells, some of which are empty.  An entry is changed or removed in its cell
without the others being touched, and what comes of it is what `Entries.put` and `Entries.erase`
make of the entries.
-/

namespace Blockwork.Entries

variable {α β : Type}

/-- The entries in cells. -/
def ofCells (cells : List (Option (α × β))) : List (α × β) := cells.filterMap id

@[simp] theorem ofCells_nil : ofCells ([] : List (Option (α × β))) = [] := rfl

@[simp] theorem ofCells_none (cells : List (Option (α × β))) :
    ofCells (none :: cells) = ofCells cells := rfl

@[simp] theorem ofCells_some (e : α × β) (cells : List (Option (α × β))) :
    ofCells (some e :: cells) = e :: ofCells cells := rfl

theorem ofCells_append (cells : List (Option (α × β))) (e : α × β) :
    ofCells (cells ++ [some e]) = ofCells cells ++ [e] := List.filterMap_append

theorem mem_ofCells {cells : List (Option (α × β))} {e : α × β} :
    e ∈ ofCells cells ↔ ∃ i : Nat, cells[i]? = some (some e) := by
  rw [← List.mem_iff_getElem?, ofCells, List.mem_filterMap]
  exact ⟨fun ⟨_, h, same⟩ => same ▸ h, fun h => ⟨_, h, rfl⟩⟩

theorem length_ofCells_set {cells : List (Option (α × β))} {i : Nat} {e : α × β}
    (he : cells[i]? = some (some e)) (d : α × β) :
    (ofCells (cells.set i (some d))).length = (ofCells cells).length := by
  induction cells generalizing i with
  | nil => simp at he
  | cons c cells ih =>
    cases i with
    | zero =>
      obtain rfl : c = some e := by simpa using he
      simp
    | succ i =>
      have := ih (i := i) he
      cases c <;> simpa using this

theorem length_ofCells_clear {cells : List (Option (α × β))} {i : Nat} {e : α × β}
    (he : cells[i]? = some (some e)) :
    (ofCells (cells.set i none)).length + 1 = (ofCells cells).length := by
  induction cells generalizing i with
  | nil => simp at he
  | cons c cells ih =>
    cases i with
    | zero =>
      obtain rfl : c = some e := by simpa using he
      simp
    | succ i =>
      have := ih (i := i) he
      cases c <;> simpa using this

variable [BEq α]

/-- Whether every key is in at most one cell. -/
def Single (cells : List (Option (α × β))) : Prop :=
  ∀ (i j : Nat) (d e : α × β),
    cells[i]? = some (some d) → cells[j]? = some (some e) → d.1 == e.1 → i = j

theorem Single.tail {c : Option (α × β)} {cells : List (Option (α × β))}
    (h : Single (c :: cells)) : Single cells := fun i j d e hi hj same =>
  Nat.succ.inj (h (i + 1) (j + 1) d e hi hj same)

/-- A key that a later cell holds is not in the first one. -/
theorem Single.unequal [EquivBEq α] {d e : α × β} {cells : List (Option (α × β))}
    (h : Single (some d :: cells)) {i : Nat} (he : cells[i]? = some (some e)) {k : α}
    (hk : e.1 == k) : (d.1 == k) = false := by
  rw [Bool.eq_false_iff]
  intro hd
  exact nomatch h 0 (i + 1) d e rfl he (BEq.trans hd (BEq.symm hk))

theorem get?_of_unequal {es : List (α × β)} {k : α} (h : ∀ e ∈ es, (e.1 == k) = false) :
    get? es k = none := by
  simpa [get?] using h

theorem put_of_unequal {es : List (α × β)} {k : α} (h : ∀ e ∈ es, (e.1 == k) = false) (v : β) :
    put es k v = es ++ [(k, v)] := by
  induction es with
  | nil => rfl
  | cons e rest ih =>
    obtain ⟨j, w⟩ := e
    have hj : (j == k) = false := h (j, w) (by simp)
    simp [put, hj, ih fun e he => h e (by simp [he])]

theorem erase_of_unequal {es : List (α × β)} {k : α} (h : ∀ e ∈ es, (e.1 == k) = false) :
    erase es k = es := by
  rw [erase, List.filter_eq_self]
  exact fun e he => by simp [h e he]

section Laws

variable [EquivBEq α] {cells : List (Option (α × β))} (hs : Single cells) {i : Nat} {e : α × β}
  {k : α} (he : cells[i]? = some (some e)) (hk : e.1 == k)

include hs he hk

/-- A key is looked up in its cell. -/
theorem get?_ofCells : get? (ofCells cells) k = some e.2 := by
  induction cells generalizing i with
  | nil => simp at he
  | cons c cells ih =>
    cases i with
    | zero =>
      obtain rfl : c = some e := by simpa using he
      simp [get?, hk]
    | succ i =>
      have ih := ih hs.tail he
      cases c with
      | none => simpa using ih
      | some d =>
        simp only [get?] at ih
        simpa [get?, hs.unequal he hk] using ih

/-- A value is put under a key in the cell of the key. -/
theorem ofCells_set (v : β) :
    ofCells (cells.set i (some (e.1, v))) = put (ofCells cells) k v := by
  induction cells generalizing i with
  | nil => simp at he
  | cons c cells ih =>
    cases i with
    | zero =>
      obtain rfl : c = some e := by simpa using he
      simp [put, hk]
    | succ i =>
      have ih := ih hs.tail he
      cases c with
      | none => simpa using ih
      | some d => simpa [put, hs.unequal he hk] using ih

/-- A key is erased when its cell is emptied. -/
theorem ofCells_clear : ofCells (cells.set i none) = erase (ofCells cells) k := by
  induction cells generalizing i with
  | nil => simp at he
  | cons c cells ih =>
    cases i with
    | zero =>
      obtain rfl : c = some e := by simpa using he
      have rest : erase (ofCells cells) k = ofCells cells := by
        refine erase_of_unequal fun d hd => ?_
        obtain ⟨j, hj⟩ := mem_ofCells.1 hd
        rw [Bool.eq_false_iff]
        intro same
        exact nomatch hs 0 (j + 1) e d rfl hj (BEq.trans hk (BEq.symm same))
      simp only [erase] at rest
      simp [erase, hk, rest]
    | succ i =>
      have ih := ih hs.tail he
      cases c with
      | none => simpa using ih
      | some d =>
        simp only [erase] at ih
        simpa [erase, hs.unequal he hk] using ih

end Laws

end Blockwork.Entries
