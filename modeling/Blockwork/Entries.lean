/-!
# Entries

Dictionaries small enough to be lists of pairs.  Keys are told apart by `==`; one that is put again
keeps its place and its form (`Entries.put`).
-/

namespace Blockwork.Entries

variable {α β : Type} [BEq α]

/-- The value under a key. -/
def get? (es : List (α × β)) (k : α) : Option β := (es.find? (·.1 == k)).map (·.2)

/-- The entries with `v` under `k`: in the place of the old value, or at the end. -/
def put (es : List (α × β)) (k : α) (v : β) : List (α × β) :=
  match es with
  | [] => [(k, v)]
  | (j, w) :: rest => if j == k then (j, v) :: rest else (j, w) :: put rest k v

/-- The entries without those under `k`. -/
def erase (es : List (α × β)) (k : α) : List (α × β) := es.filter (!·.1 == k)

/-- The entries that come of putting pairs one after the other. -/
def ofList (es : List (α × β)) : List (α × β) := es.foldl (fun es (k, v) => put es k v) []

/-- What is found under a key stands among the entries, under a key that is the same. -/
theorem exists_mem_of_get? {es : List (α × β)} {k : α} {v : β} (h : get? es k = some v) :
    ∃ j, (j, v) ∈ es ∧ (j == k) = true := by
  obtain ⟨e, he, rfl⟩ := Option.map_eq_some_iff.mp h
  exact ⟨e.1, List.mem_of_find?_eq_some he, (List.find?_some he :)⟩

theorem get?_put [EquivBEq α] (es : List (α × β)) (j k : α) (v : β) :
    get? (put es k v) j = if k == j then some v else get? es j := by
  induction es with
  | nil => by_cases h : k == j <;> simp [get?, put, h]
  | cons e rest ih =>
    obtain ⟨i, w⟩ := e
    simp only [get?] at ih
    by_cases hik : i == k
    · by_cases h : k == j
      · simp [get?, put, hik, h, BEq.trans hik h]
      · have hij : (i == j) = false := by
          rw [Bool.eq_false_iff]
          exact fun hij => h (BEq.trans (BEq.symm hik) hij)
        simp [get?, put, hik, h, hij]
    · by_cases hij : i == j
      · have h : (k == j) = false := by
          rw [Bool.eq_false_iff]
          exact fun h => hik (BEq.trans hij (BEq.symm h))
        simp [get?, put, hik, hij, h]
      · simp [get?, put, hik, hij, ih]

theorem get?_erase [EquivBEq α] (es : List (α × β)) (j k : α) :
    get? (erase es k) j = if k == j then none else get? es j := by
  induction es with
  | nil => simp [get?, erase]
  | cons e rest ih =>
    obtain ⟨i, w⟩ := e
    simp only [get?, erase] at ih
    by_cases hik : i == k
    · by_cases h : k == j
      · simpa [get?, erase, hik, h] using ih
      · have hij : (i == j) = false := by
          rw [Bool.eq_false_iff]
          exact fun hij => h (BEq.trans (BEq.symm hik) hij)
        simpa [get?, erase, hik, h, hij] using ih
    · by_cases hij : i == j
      · have h : (k == j) = false := by
          rw [Bool.eq_false_iff]
          exact fun h => hik (BEq.trans hij (BEq.symm h))
        simp [get?, erase, hik, hij, h]
      · simpa [get?, erase, hik, hij] using ih

/-- The keys after a value is put: a new key comes at the end. -/
theorem map_fst_put (es : List (α × β)) (k : α) (v : β) :
    (put es k v).map (·.1) =
      if es.any (·.1 == k) then es.map (·.1) else es.map (·.1) ++ [k] := by
  induction es with
  | nil => rfl
  | cons e rest ih =>
    obtain ⟨j, w⟩ := e
    by_cases h : j == k
    · simp [put, h]
    · simp only [put, h, Bool.false_eq_true, if_false, List.map_cons, ih, List.any_cons,
        Bool.false_or]
      split <;> rfl

end Blockwork.Entries
