import Blockwork.Proofs.Sound

/-!
# Blocks that come, go and change

A sound workspace stays sound when a block without links is added under a name that is not in use
(`Sound.insert`), when blocks are left out together with all that they are linked to
(`Sound.discard`), and when a block changes apart from its id, its type and its links
(`Sound.edit`).
-/

namespace Blockwork

open Forest (Rooted Hangs)

namespace Workspace

variable {w : Workspace}

/-! ### New blocks -/

/-- The workspace with one more block. -/
def insert (w : Workspace) (x : String) (b : Block) : Workspace :=
  { w with table := w.table.put (.text x) b, created := w.created + 1 }

theorem find?_insert (w : Workspace) (x : String) (b : Block) (k : Key) :
    (w.insert x b).find? k = if Key.text x == k then some b else w.find? k :=
  Table.find?_put ..

@[simp] theorem block?_insert (w : Workspace) (x y : String) (b : Block) :
    (w.insert x b).block? y = if x = y then some b else w.block? y := by
  simp [block?, find?_insert]

/-- An id that a block may be given: none, or a text that is not empty and not a name that is still
to be given. -/
def Admits (w : Workspace) (id : Value) : Prop :=
  id = .null ∨ ∃ x, id = .text x ∧ x ≠ "" ∧ ∀ n, w.created < n → x ≠ mint n

/-- What can be asked for as an id: none, or any text. -/
def IsId (id : Value) : Prop := id = .null ∨ ∃ x, id = .text x

theorem Admits.isId {id : Value} (h : w.Admits id) : IsId id :=
  h.imp_right fun ⟨x, hx, _⟩ => ⟨x, hx⟩

theorem Admits.mono {w' : Workspace} {id : Value} (h : w.Admits id)
    (hw : w.created ≤ w'.created) : w'.Admits id := by
  rcases h with h | ⟨x, hx, hne, hm⟩
  · exact .inl h
  · exact .inr ⟨x, hx, hne, fun n hn => hm n (Nat.lt_of_le_of_lt hw hn)⟩

/-- A short text may be given as an id, whatever names are still to come. -/
theorem admits_text (w : Workspace) {x : String} (hne : x ≠ "") (hx : x.length < 5) :
    w.Admits (.text x) := by
  refine .inr ⟨x, rfl, hne, fun n _ he => ?_⟩
  have hl := congrArg String.length he
  rw [mint, String.length_append] at hl
  have : "auto-".length = 5 := rfl
  omega

section

variable {x : String} {b : Block} (hx : w.block? x = none) (hb : b.core = b)

include hb in
theorem child?_of_core (s : Slot) : b.child? s = none := by
  rw [← hb]; cases s <;> rfl

include hb in
theorem seat?_of_core : b.seat? = none := by
  rw [← hb]; rfl

include hx hb in
theorem child?_insert (p : String) (s : Slot) : (w.insert x b).child? p s = w.child? p s := by
  unfold child?
  rw [block?_insert]
  split
  · rename_i h
    subst h
    rw [hx]
    exact child?_of_core hb s
  · rfl

include hx hb in
theorem seat?_insert (y : String) : (w.insert x b).seat? y = w.seat? y := by
  unfold seat?
  rw [block?_insert]
  split
  · rename_i h
    subst h
    rw [hx]
    exact seat?_of_core hb
  · rfl

include hx hb in
theorem above?_insert : (w.insert x b).above? = w.above? := by
  funext y
  unfold above?
  rw [seat?_insert hx hb]

include hx in
/-- A block that was there before is of the type it was of before. -/
theorem type?_insert {y : String} {d : Declaration} (hy : w.type? y = some d) :
    (w.insert x b).type? y = some d := by
  obtain ⟨c, hc, hd⟩ := type?_eq_some.mp hy
  have hxy : x ≠ y := fun e => by rw [e, hc] at hx; cases hx
  refine type?_eq_some.mpr ⟨c, ?_, hd⟩
  rw [block?_insert, if_neg hxy, hc]

include hx hb in
/-- A block without links may be added under a name that is not in use. -/
theorem Sound.insert (h : w.Sound) (hne : x ≠ "") (hid : b.id = .text x) {d : Declaration}
    (hd : w.declarationOf b = .ok d) : (w.insert x b).Sound where
  worded := h.worded
  named k c hc := by
    rw [find?_insert] at hc
    split at hc
    · rename_i hk
      cases hc
      exact ⟨x, hne, Key.text_beq_iff.mp hk, hid⟩
    · exact h.named k c hc
  shaped y c hc := by
    rw [block?_insert] at hc
    split at hc
    · cases hc
      rw [← hb]
      exact ⟨.inl rfl, fun e he => absurd he List.not_mem_nil, List.nodup_nil, .inl ⟨rfl, rfl⟩⟩
    · exact h.shaped y c hc
  linked p s c := by
    rw [child?_insert hx hb, seat?_insert hx hb]
    exact h.linked p s c
  typed y hy := by
    by_cases hxy : x = y
    · subst hxy
      have : (w.insert x b).type? x = some d := type?_eq_some.mpr ⟨b, by simp, hd⟩
      rw [this]
      rfl
    · rw [block?_insert, if_neg hxy] at hy
      obtain ⟨e, he⟩ := Option.isSome_iff_exists.mp (h.typed y hy)
      rw [type?_insert hx he]
      rfl
  suited p s c hc := by
    rw [seat?_insert hx hb] at hc
    obtain ⟨d, e, hd, he, ht⟩ := h.suited p s c hc
    exact ⟨d, e, type?_insert hx hd, type?_insert hx he, ht⟩
  rooted := by rw [above?_insert hx hb]; exact h.rooted

end

theorem Minted.insert (h : w.Minted) {x : String} (hm : ∀ n, w.created + 1 < n → x ≠ mint n)
    (b : Block) : (w.insert x b).Minted := fun n hn => by
  rw [block?_insert, if_neg (hm n hn)]
  exact h n (Nat.lt_of_succ_lt hn)

/-! ### Blocks left out -/

/-- The workspace without some blocks. -/
def discard (w : Workspace) (xs : List String) : Workspace := xs.foldl drop w

theorem discard_cons (w : Workspace) (x : String) (xs : List String) :
    w.discard (x :: xs) = (w.drop x).discard xs := rfl

theorem find?_discard (w : Workspace) (xs : List String) (k : Key) :
    (w.discard xs).find? k = if ∃ x ∈ xs, k = .text x then none else w.find? k := by
  induction xs generalizing w with
  | nil => simp [discard]
  | cons x xs ih =>
      rw [discard_cons, ih, drop]
      simp only [find?, Table.find?_erase, Key.text_beq_iff, List.mem_cons]
      by_cases hx : k = .text x
      · subst hx; simp
      · by_cases hk : ∃ y ∈ xs, k = .text y
        · obtain ⟨y, hy, rfl⟩ := hk
          simp [hy]
        · simp_all

theorem block?_discard (w : Workspace) (xs : List String) (y : String) :
    (w.discard xs).block? y = if y ∈ xs then none else w.block? y := by
  simp [block?, find?_discard]

theorem vocabulary_discard (w : Workspace) (xs : List String) :
    (w.discard xs).vocabulary = w.vocabulary := by
  induction xs generalizing w with
  | nil => rfl
  | cons x xs ih => exact ih (w.drop x)

theorem created_discard (w : Workspace) (xs : List String) :
    (w.discard xs).created = w.created := by
  induction xs generalizing w with
  | nil => rfl
  | cons x xs ih => exact ih (w.drop x)

theorem child?_discard (w : Workspace) (xs : List String) (p : String) (s : Slot) :
    (w.discard xs).child? p s = if p ∈ xs then none else w.child? p s := by
  unfold child?
  rw [block?_discard]
  split <;> rfl

theorem seat?_discard (w : Workspace) (xs : List String) (y : String) :
    (w.discard xs).seat? y = if y ∈ xs then none else w.seat? y := by
  unfold seat?
  rw [block?_discard]
  split <;> rfl

theorem above?_discard (w : Workspace) (xs : List String) (y : String) :
    (w.discard xs).above? y = if y ∈ xs then none else w.above? y := by
  unfold above?
  rw [seat?_discard]
  split <;> rfl

theorem hangs_of_hangs_discard {xs : List String} {x y : String}
    (h : Hangs (w.discard xs).above? x y) : Hangs w.above? x y := by
  refine Hangs.of_shrink (fun y => ?_) h
  rw [above?_discard]
  split
  · exact .inr rfl
  · exact .inl rfl

theorem type?_discard (w : Workspace) (xs : List String) (y : String) :
    (w.discard xs).type? y = if y ∈ xs then none else w.type? y := by
  unfold type? core? declarationOf
  rw [block?_discard, vocabulary_discard]
  split <;> rfl

/-- Blocks may be left out together with all that they are linked to. -/
theorem Sound.discard (h : w.Sound) {xs : List String}
    (hxs : ∀ p s c, w.seat? c = some (p, s) → (p ∈ xs ↔ c ∈ xs)) : (w.discard xs).Sound where
  worded := by rw [vocabulary_discard]; exact h.worded
  named k b hb := by
    rw [find?_discard] at hb
    split at hb
    · cases hb
    · exact h.named k b hb
  shaped y b hb := by
    rw [block?_discard] at hb
    split at hb
    · cases hb
    · exact h.shaped y b hb
  linked p s c := by
    rw [child?_discard, seat?_discard]
    by_cases hp : p ∈ xs
    · rw [if_pos hp]
      constructor
      · intro hc; cases hc
      · intro hc
        split at hc
        · cases hc
        · rename_i hx
          exact absurd ((hxs p s c hc).mp hp) hx
    · rw [if_neg hp, h.linked p s c]
      split
      · rename_i hc
        constructor
        · intro hs; exact absurd ((hxs p s c hs).mpr hc) hp
        · intro hs; cases hs
      · rfl
  typed y hy := by
    rw [block?_discard] at hy
    rw [type?_discard]
    split at hy
    · cases hy
    · rename_i hyx
      rw [if_neg hyx]
      exact h.typed y hy
  suited p s c hc := by
    rw [seat?_discard] at hc
    split at hc
    · cases hc
    · rename_i hcx
      obtain ⟨d, e, hd, he, ht⟩ := h.suited p s c hc
      have hpx : p ∉ xs := fun hp => hcx ((hxs p s c hc).mp hp)
      refine ⟨d, e, ?_, ?_, ht⟩
      · rw [type?_discard, if_neg hpx, hd]
      · rw [type?_discard, if_neg hcx, he]
  rooted := by
    refine h.rooted.shrink fun y => ?_
    rw [above?_discard]
    split
    · exact .inr rfl
    · exact .inl rfl

theorem Minted.discard (h : w.Minted) (xs : List String) : (w.discard xs).Minted := fun n hn => by
  rw [created_discard] at hn
  rw [block?_discard, h n hn]
  split <;> rfl

/-! ### Other changes -/

theorem isSome_block?_edit (w : Workspace) (x y : String) (f : Block → Block) :
    ((w.edit x f).block? y).isSome = (w.block? y).isSome := by
  rw [block?_edit]
  split <;> simp

/-- Whether a change of a block leaves its id, its type and its links as they are. -/
structure Harmless (f : Block → Block) : Prop where
  id : ∀ b, (f b).id = b.id
  type : ∀ b, (f b).type = b.type
  inputs : ∀ b, (f b).inputs = b.inputs
  next : ∀ b, (f b).next = b.next
  parent : ∀ b, (f b).parent = b.parent
  parentInput : ∀ b, (f b).parentInput = b.parentInput

theorem harmless_fields (g : Block → List (Key × Value)) :
    Harmless fun b => { b with fields := g b } :=
  ⟨fun _ => rfl, fun _ => rfl, fun _ => rfl, fun _ => rfl, fun _ => rfl, fun _ => rfl⟩

theorem harmless_position (position : List Value) : Harmless fun b => { b with position } :=
  ⟨fun _ => rfl, fun _ => rfl, fun _ => rfl, fun _ => rfl, fun _ => rfl, fun _ => rfl⟩

theorem harmless_enabled (enabled : Value) : Harmless fun b => { b with enabled } :=
  ⟨fun _ => rfl, fun _ => rfl, fun _ => rfl, fun _ => rfl, fun _ => rfl, fun _ => rfl⟩

section

variable {f : Block → Block} (hf : Harmless f)

include hf

theorem Harmless.child? (x p : String) (s : Slot) : (w.edit x f).child? p s = w.child? p s := by
  refine child?_edit (fun b s => ?_) p s
  cases s <;> simp only [Block.child?, hf.next, hf.inputs]

theorem Harmless.seat? (x y : String) : (w.edit x f).seat? y = w.seat? y :=
  seat?_edit (fun b => by simp only [Block.seat?, hf.parent, hf.parentInput]) y

theorem Harmless.type? (x y : String) : (w.edit x f).type? y = w.type? y := by
  have same (b : Block) : w.declarationOf (f b) = w.declarationOf b := by
    unfold declarationOf
    rw [hf.type]
  unfold Workspace.type? core?
  rw [block?_edit]
  split
  · cases w.block? y with
    | none => rfl
    | some b => exact congrArg Except.toOption (same b)
  · rfl

/-- A block may be changed apart from its id, its type and its links. -/
theorem Sound.edit (h : w.Sound) (x : String) : (w.edit x f).Sound where
  worded := h.worded
  named := h.named.edit hf.id
  shaped := shaped_edit h.shaped fun b hb =>
    ⟨hf.next b ▸ hb.next, hf.inputs b ▸ hb.inputs, hf.inputs b ▸ hb.sockets, by
      rw [hf.parent, hf.parentInput]
      exact hb.seat⟩
  linked p s c := by
    rw [hf.child?, hf.seat?]
    exact h.linked p s c
  typed y hy := by
    rw [isSome_block?_edit] at hy
    rw [hf.type?]
    exact h.typed y hy
  suited p s c hc := by
    rw [hf.seat?] at hc
    unfold Suits
    rw [hf.type?, hf.type?]
    exact h.suited p s c hc
  rooted := by
    have : (w.edit x f).above? = w.above? := funext fun y => by
      unfold above?
      rw [hf.seat?]
    rw [this]
    exact h.rooted

end

theorem Minted.edit (h : w.Minted) (x : String) (f : Block → Block) : (w.edit x f).Minted :=
  fun n hn => by
    have hsome := isSome_block?_edit w x (mint n) f
    rw [h n hn] at hsome
    exact Option.not_isSome_iff_eq_none.mp (by rw [hsome]; exact Bool.false_ne_true)

/-- Whether a drag gesture is in progress, and how often changes are kept from the audience, does
not matter. -/
theorem Sound.gesture (h : w.Sound) (dragging : Bool) (muted : Nat) :
    ({ w with dragging, muted } : Workspace).Sound :=
  ⟨h.worded, h.named, h.shaped, h.linked, h.typed, h.suited, h.rooted⟩

/-- A workspace without blocks is sound. -/
theorem Sound.of_empty (hv : w.vocabulary.Worded) (he : ∀ k, w.find? k = none) : w.Sound where
  worded := hv
  named k b hb := by rw [he] at hb; cases hb
  shaped x b hb := by rw [block?, he] at hb; cases hb
  linked p s c := by simp [child?, seat?, block?, he]
  typed x hx := by rw [block?, he] at hx; cases hx
  suited p s c hc := by simp [seat?, block?, he] at hc
  rooted x := ⟨[x], .root (by simp [above?, seat?, block?, he])⟩

end Workspace

end Blockwork
