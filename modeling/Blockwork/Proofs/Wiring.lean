import Blockwork.Proofs.Forest
import Blockwork.Workspace.Basic

/-!
# Wiring

How blocks are linked, read off what they hold.  A block has slots: one behind it (`none`), and one
for each of its sockets (`some s`).  `Workspace.child?` is the block in a slot of a block and
`Workspace.seat?` the slot that a block says it is in; the two are written by different parts of an
edit, and a workspace is `Linked` when they agree.

Two changes of links, `Workspace.cut` and `Workspace.bind`, each touch both sides of one link and
keep the workspace linked.
-/

namespace Blockwork

/-! ### Texts as keys and values -/

@[simp] theorem Key.beq_text_iff {k : Key} {s : String} : (k == .text s) = true ↔ k = .text s := by
  rw [Key.beq_iff_name]
  cases k with
  | float x => cases h : x.toInt? <;> simp [Key.name, h]
  | null | text | int | bool => simp [Key.name]

@[simp] theorem Key.text_beq_iff {k : Key} {s : String} : (Key.text s == k) = true ↔ k = .text s := by
  rw [BEq.comm, Key.beq_text_iff]

namespace Value

theorem text?_eq_some {v : Value} {s : String} : v.text? = some s ↔ v = .text s := by
  cases v <;> simp [text?]

@[simp] theorem text?_text (s : String) : (Value.text s).text? = some s := rfl

@[simp] theorem text?_null : Value.null.text? = none := rfl

@[simp] theorem toKey_text (s : String) : (Value.text s).toKey = .ok (.text s) := rfl

@[simp] theorem ofKey_text (s : String) : ofKey (.text s) = .text s := rfl

/-- Only a text is the same as a text. -/
theorem same_text_left {s : String} {v : Value} : (Value.text s).same v = true ↔ v = .text s := by
  cases v with
  | text t => simp [eq_comm]
  | float x => cases h : x.toInt? <;> simp [same, alike, key?, Key.same, Key.name, h]
  | null | int | bool | list | dict => simp [same, alike, key?, Key.same, Key.name]

theorem same_text_right {s : String} {v : Value} : v.same (.text s) = true ↔ v = .text s := by
  cases v with
  | text t => simp
  | float x => cases h : x.toInt? <;> simp [same, alike, key?, Key.same, Key.name, h]
  | null | int | bool | list | dict => simp [same, alike, key?, Key.same, Key.name]

end Value

/-- The pairs after a value is put: it stands under the key that was there, if one was. -/
theorem Entries.mem_put {α β : Type} [BEq α] [EquivBEq α] {es : List (α × β)} {k : α} {v : β}
    {e : α × β} (h : e ∈ Entries.put es k v) : e ∈ es ∨ ∃ i, (i == k) = true ∧ e = (i, v) := by
  induction es with
  | nil => exact .inr ⟨k, BEq.rfl, List.mem_singleton.mp h⟩
  | cons d rest ih =>
      obtain ⟨j, w⟩ := d
      simp only [Entries.put] at h
      split at h
      · rename_i hj
        rcases List.mem_cons.mp h with rfl | h
        · exact .inr ⟨j, hj, rfl⟩
        · exact .inl (List.mem_cons_of_mem _ h)
      · rcases List.mem_cons.mp h with rfl | h
        · exact .inl List.mem_cons_self
        · exact (ih h).imp_left (List.mem_cons_of_mem _)

/-! ### Slots -/

/-- A place where a block may hang: behind another one, or in one of its sockets. -/
abbrev Slot := Option String

namespace Block

variable {b : Block}

/-- The id of the block in a slot. -/
def child? (b : Block) : Slot → Option String
  | none => b.next.text?
  | some s => (Entries.get? b.inputs (.text s)).bind Value.text?

/-- The block that a block says it hangs from, and in which slot. -/
def seat? (b : Block) : Option (String × Slot) := b.parent.text?.map (·, b.parentInput.text?)

/-- Links are texts, and each socket is there once. -/
structure Shaped (b : Block) : Prop where
  next : b.next = .null ∨ ∃ x, b.next = .text x
  inputs : ∀ e ∈ b.inputs, ∃ s x, e = (.text s, .text x)
  sockets : (b.inputs.map (·.1)).Nodup
  seat : b.parent = .null ∧ b.parentInput = .null ∨
    ∃ p, b.parent = .text p ∧ (b.parentInput = .null ∨ ∃ s, b.parentInput = .text s)

/-- The block with nothing in a slot. -/
def vacate (b : Block) : Slot → Block
  | none => { b with next := .null }
  | some s => { b with inputs := Entries.erase b.inputs (.text s) }

/-- The block with another one in a slot. -/
def occupy (b : Block) (c : String) : Slot → Block
  | none => { b with next := .text c }
  | some s => { b with inputs := Entries.put b.inputs (.text s) (.text c) }

/-- The block hanging nowhere. -/
def loosen (b : Block) : Block := { b with parent := .null, parentInput := .null }

/-- The block hanging in a slot of another one. -/
def settle (b : Block) (p : String) (slot : Slot) : Block :=
  { b with parent := .text p, parentInput := .ofText? slot }

/-- What a block is apart from its links. -/
def core (b : Block) : Block :=
  { b with inputs := [], next := .null, parent := .null, parentInput := .null }

/-! ### Links of changed blocks -/

@[simp] theorem child?_vacate (b : Block) (s t : Slot) :
    (b.vacate s).child? t = if s = t then none else b.child? t := by
  cases s <;> cases t <;> simp [vacate, child?, Entries.get?_erase]
  split <;> rfl

@[simp] theorem child?_occupy (b : Block) (c : String) (s t : Slot) :
    (b.occupy c s).child? t = if s = t then some c else b.child? t := by
  cases s <;> cases t <;> simp [occupy, child?, Entries.get?_put]
  split <;> rfl

@[simp] theorem child?_loosen (b : Block) (s : Slot) : b.loosen.child? s = b.child? s := by
  cases s <;> rfl

@[simp] theorem child?_settle (b : Block) (p : String) (s t : Slot) :
    (b.settle p s).child? t = b.child? t := by
  cases t <;> rfl

@[simp] theorem seat?_vacate (b : Block) (s : Slot) : (b.vacate s).seat? = b.seat? := by
  cases s <;> rfl

@[simp] theorem seat?_occupy (b : Block) (c : String) (s : Slot) :
    (b.occupy c s).seat? = b.seat? := by
  cases s <;> rfl

@[simp] theorem seat?_loosen (b : Block) : b.loosen.seat? = none := rfl

@[simp] theorem seat?_settle (b : Block) (p : String) (s : Slot) :
    (b.settle p s).seat? = some (p, s) := by
  cases s <;> rfl

@[simp] theorem core_vacate (b : Block) (s : Slot) : (b.vacate s).core = b.core := by
  cases s <;> rfl

@[simp] theorem core_occupy (b : Block) (c : String) (s : Slot) :
    (b.occupy c s).core = b.core := by
  cases s <;> rfl

@[simp] theorem core_loosen (b : Block) : b.loosen.core = b.core := rfl

@[simp] theorem core_settle (b : Block) (p : String) (s : Slot) :
    (b.settle p s).core = b.core := rfl

/-! ### Shapes of changed blocks -/

theorem Shaped.vacate (h : b.Shaped) (s : Slot) : (b.vacate s).Shaped := by
  cases s with
  | none => exact ⟨.inl rfl, h.inputs, h.sockets, h.seat⟩
  | some s =>
      refine ⟨h.next, fun e he => h.inputs e (List.mem_of_mem_filter he), ?_, h.seat⟩
      exact h.sockets.sublist (List.filter_sublist.map _)

theorem Shaped.occupy (h : b.Shaped) (c : String) (s : Slot) : (b.occupy c s).Shaped := by
  cases s with
  | none => exact ⟨.inr ⟨c, rfl⟩, h.inputs, h.sockets, h.seat⟩
  | some s =>
      refine ⟨h.next, ?_, ?_, h.seat⟩
      · intro e he
        rcases Entries.mem_put he with he | ⟨i, hi, rfl⟩
        · exact h.inputs e he
        · exact ⟨s, c, by rw [Key.beq_text_iff.mp hi]⟩
      · change (List.map (·.1) (Entries.put b.inputs (.text s) (.text c))).Nodup
        rw [Entries.map_fst_put]
        split
        · exact h.sockets
        · rename_i hs
          refine List.nodup_append.mpr ⟨h.sockets, List.nodup_singleton _, ?_⟩
          simp only [List.mem_singleton, forall_eq]
          rintro k hk rfl
          obtain ⟨e, he, hk⟩ := List.mem_map.mp hk
          exact hs (List.any_eq_true.mpr ⟨e, he, by rw [hk]; exact BEq.rfl⟩)

theorem Shaped.loosen (h : b.Shaped) : b.loosen.Shaped :=
  ⟨h.next, h.inputs, h.sockets, .inl ⟨rfl, rfl⟩⟩

theorem Shaped.settle (h : b.Shaped) (p : String) (s : Slot) : (b.settle p s).Shaped := by
  refine ⟨h.next, h.inputs, h.sockets, .inr ⟨p, rfl, ?_⟩⟩
  cases s with
  | none => exact .inl rfl
  | some s => exact .inr ⟨s, rfl⟩

/-! ### Shaped blocks -/

theorem Shaped.parent_of_seat?_none (h : b.Shaped) (hb : b.seat? = none) :
    b.parent = .null ∧ b.parentInput = .null := by
  rcases h.seat with h | ⟨p, hp, -⟩
  · exact h
  · simp [seat?, hp] at hb

theorem Shaped.parent_of_seat? (h : b.Shaped) {p : String} {s : Slot}
    (hb : b.seat? = some (p, s)) : b.parent = .text p ∧ b.parentInput = .ofText? s := by
  rcases h.seat with ⟨hp, -⟩ | ⟨q, hq, hs⟩
  · simp [seat?, hp] at hb
  · simp only [seat?, hq, Value.text?_text, Option.map_some, Option.some.injEq,
      Prod.mk.injEq] at hb
    obtain ⟨rfl, rfl⟩ := hb
    rcases hs with hs | ⟨t, hs⟩ <;> rw [hs] <;> exact ⟨hq, rfl⟩

theorem Shaped.parent_eq (h : b.Shaped) : b.parent = .ofText? (b.seat?.map (·.1)) := by
  cases hs : b.seat? with
  | none => exact (h.parent_of_seat?_none hs).1
  | some q => exact (h.parent_of_seat? hs).1

theorem Shaped.parentInput_eq (h : b.Shaped) :
    b.parentInput = .ofText? (b.seat?.bind (·.2)) := by
  cases hs : b.seat? with
  | none => exact (h.parent_of_seat?_none hs).2
  | some q => exact (h.parent_of_seat? hs).2

theorem Shaped.next_eq (h : b.Shaped) : b.next = .ofText? (b.child? none) := by
  rcases h.next with h | ⟨x, h⟩ <;> simp [child?, h, Value.ofText?]

theorem Shaped.get?_inputs (h : b.Shaped) (s : String) :
    Entries.get? b.inputs (.text s) = (b.child? (some s)).map .text := by
  cases he : Entries.get? b.inputs (.text s) with
  | none => simp [child?, he]
  | some v =>
      obtain ⟨j, hj, -⟩ := Entries.exists_mem_of_get? he
      obtain ⟨t, x, htx⟩ := h.inputs _ hj
      obtain ⟨rfl, rfl⟩ := Prod.mk.inj htx
      simp [child?, he]

theorem Shaped.mem_inputs (h : b.Shaped) {s x : String} :
    (Key.text s, Value.text x) ∈ b.inputs ↔ b.child? (some s) = some x := by
  have hg := h.get?_inputs s
  constructor
  · intro hm
    obtain ⟨e, he⟩ : ∃ e, b.inputs.find? (·.1 == Key.text s) = some e :=
      Option.isSome_iff_exists.mp (List.find?_isSome.mpr ⟨_, hm, BEq.rfl⟩)
    have hk : e.1 = .text s := Key.beq_text_iff.mp (List.find?_some he :)
    have := List.inj_on_of_nodup_map h.sockets (List.mem_of_find?_eq_some he) hm hk
    simp [child?, Entries.get?, he, this]
  · intro hc
    rw [hc] at hg
    obtain ⟨j, hj, hjs⟩ := Entries.exists_mem_of_get? hg
    rwa [Key.beq_text_iff.mp hjs] at hj

/-! ### Children -/

/-- The blocks in the slots of a block, those in its sockets first. -/
def children (b : Block) : List String := b.inputs.filterMap (·.2.text?) ++ b.next.text?.toList

theorem Shaped.mem_children (h : b.Shaped) {c : String} :
    c ∈ b.children ↔ ∃ s, b.child? s = some c := by
  simp only [children, List.mem_append, List.mem_filterMap, Option.mem_toList]
  constructor
  · rintro (⟨e, he, hc⟩ | hc)
    · obtain ⟨s, x, rfl⟩ := h.inputs e he
      cases hc
      exact ⟨some s, h.mem_inputs.mp he⟩
    · exact ⟨none, hc⟩
  · rintro ⟨s, hc⟩
    cases s with
    | none => exact .inr hc
    | some s => exact .inl ⟨_, h.mem_inputs.mpr hc, rfl⟩

/-- The targets of a block are its children, when none of them has an empty name. -/
theorem Shaped.targets_eq (h : b.Shaped) (hne : b.next ≠ .text "") :
    b.targets = b.children.map .text := by
  have hin : b.inputs.map (·.2) = (b.inputs.filterMap (·.2.text?)).map .text := by
    have : ∀ es : List (Key × Value), (∀ e ∈ es, ∃ s x, e = (.text s, .text x)) →
        es.map (·.2) = (es.filterMap (·.2.text?)).map .text := by
      intro es hes
      induction es with
      | nil => rfl
      | cons e es ih =>
          obtain ⟨s, x, rfl⟩ := hes e List.mem_cons_self
          simpa using ih fun e he => hes e (List.mem_cons_of_mem _ he)
    exact this _ h.inputs
  unfold targets children
  rw [List.map_append, hin]
  rcases h.next with hn | ⟨x, hn⟩
  · simp [hn, Value.isTruthy]
  · have hx : x ≠ "" := fun e => hne (e ▸ hn)
    simp [hn, Value.isTruthy, hx]

/-- A block is in at most one slot when each child is in one slot only. -/
theorem Shaped.nodup_children (h : b.Shaped)
    (hu : ∀ s t c, b.child? s = some c → b.child? t = some c → s = t) : b.children.Nodup := by
  refine List.nodup_append.mpr ⟨?_, ?_, ?_⟩
  · refine List.pairwise_filterMap.mpr ((List.pairwise_map.mp h.sockets).imp_of_mem ?_)
    intro d e hd he hde c hc c' hc' hcc
    subst hcc
    obtain ⟨s, x, rfl⟩ := h.inputs d hd
    obtain ⟨t, y, rfl⟩ := h.inputs e he
    cases hc
    cases hc'
    have := hu _ _ _ (h.mem_inputs.mp hd) (h.mem_inputs.mp he)
    exact hde (by rw [Option.some.inj this])
  · cases b.next.text? <;> simp
  · intro c hc c' hc' hcc
    subst hcc
    obtain ⟨e, he, hx⟩ := List.mem_filterMap.mp hc
    obtain ⟨s, x, rfl⟩ := h.inputs e he
    cases hx
    have := hu _ none _ (h.mem_inputs.mp he) (Option.mem_toList.mp hc')
    cases this

end Block

/-! ### Links in a workspace -/

namespace Workspace

variable {w : Workspace}

/-- The block under a text. -/
def block? (w : Workspace) (x : String) : Option Block := w.find? (.text x)

/-- The block in a slot of a block. -/
def child? (w : Workspace) (p : String) (s : Slot) : Option String :=
  (w.block? p).bind (·.child? s)

/-- The block that a block says it hangs from, and in which slot. -/
def seat? (w : Workspace) (x : String) : Option (String × Slot) := (w.block? x).bind (·.seat?)

/-- The block that a block says it hangs from. -/
def above? (w : Workspace) (x : String) : Option String := (w.seat? x).map (·.1)

/-- What a block is apart from its links. -/
def core? (w : Workspace) (x : String) : Option Block := (w.block? x).map (·.core)

/-- Both sides of every link agree. -/
def Linked (w : Workspace) : Prop := ∀ p s c, w.child? p s = some c ↔ w.seat? c = some (p, s)

/-- The workspace with the block under a text changed. -/
def edit (w : Workspace) (x : String) (f : Block → Block) : Workspace :=
  { w with table := w.table.modify (.text x) f }

/-- The workspace with a block, and all that hangs from it, taken from where it hangs. -/
def cut (w : Workspace) (x : String) : Workspace :=
  match w.seat? x with
  | none => w
  | some (p, s) => (w.edit p (·.vacate s)).edit x (·.loosen)

/-- The workspace with a block put into a slot of another one. -/
def bind (w : Workspace) (p : String) (s : Slot) (c : String) : Workspace :=
  (w.edit p (·.occupy c s)).edit c (·.settle p s)

/-- The workspace without a block. -/
def drop (w : Workspace) (x : String) : Workspace :=
  { w with table := w.table.erase (.text x) }

/-! ### Single changes -/

@[simp] theorem block?_edit (w : Workspace) (x y : String) (f : Block → Block) :
    (w.edit x f).block? y = if x = y then (w.block? y).map f else w.block? y := by
  simp [block?, find?, edit, Table.find?_modify]

@[simp] theorem block?_drop (w : Workspace) (x y : String) :
    (w.drop x).block? y = if x = y then none else w.block? y := by
  simp [block?, find?, drop, Table.find?_erase]

theorem child?_eq_some {p c : String} {s : Slot} :
    w.child? p s = some c ↔ ∃ b, w.block? p = some b ∧ b.child? s = some c :=
  Option.bind_eq_some_iff

theorem seat?_eq_some {x p : String} {s : Slot} :
    w.seat? x = some (p, s) ↔ ∃ b, w.block? x = some b ∧ b.seat? = some (p, s) :=
  Option.bind_eq_some_iff

theorem above?_eq_some {x p : String} : w.above? x = some p ↔ ∃ s, w.seat? x = some (p, s) := by
  simp [above?]

theorem above?_eq_none {x : String} : w.above? x = none ↔ w.seat? x = none := by
  simp [above?]

/-- A change that keeps the links of a block keeps those of the workspace. -/
theorem child?_edit {x : String} {f : Block → Block} (hf : ∀ b s, (f b).child? s = b.child? s)
    (p : String) (s : Slot) : (w.edit x f).child? p s = w.child? p s := by
  unfold child?
  rw [block?_edit]
  split
  · cases w.block? p <;> simp [hf]
  · rfl

theorem seat?_edit {x : String} {f : Block → Block} (hf : ∀ b, (f b).seat? = b.seat?)
    (y : String) : (w.edit x f).seat? y = w.seat? y := by
  unfold seat?
  rw [block?_edit]
  split
  · cases w.block? y <;> simp [hf]
  · rfl

theorem core?_edit {x : String} {f : Block → Block} (hf : ∀ b, (f b).core = b.core)
    (y : String) : (w.edit x f).core? y = w.core? y := by
  unfold core?
  rw [block?_edit]
  split
  · cases w.block? y <;> simp [hf]
  · rfl

theorem child?_edit_vacate (w : Workspace) (p q : String) (s t : Slot) :
    (w.edit p (·.vacate s)).child? q t = if p = q ∧ s = t then none else w.child? q t := by
  unfold child?
  rw [block?_edit]
  by_cases hp : p = q <;> by_cases hs : s = t <;> cases w.block? q <;> simp [hp, hs]

theorem child?_edit_occupy {p : String} (hp : (w.block? p).isSome) (c q : String) (s t : Slot) :
    (w.edit p (·.occupy c s)).child? q t = if p = q ∧ s = t then some c else w.child? q t := by
  unfold child?
  rw [block?_edit]
  obtain ⟨b, hb⟩ := Option.isSome_iff_exists.mp hp
  by_cases h : p = q
  · subst h; by_cases hs : s = t <;> simp [hb, hs]
  · simp [h]

theorem seat?_edit_loosen (w : Workspace) (x y : String) :
    (w.edit x (·.loosen)).seat? y = if x = y then none else w.seat? y := by
  unfold seat?
  rw [block?_edit]
  split
  · cases w.block? y <;> rfl
  · rfl

theorem seat?_edit_settle {c : String} (hc : (w.block? c).isSome) (p y : String) (s : Slot) :
    (w.edit c (·.settle p s)).seat? y = if c = y then some (p, s) else w.seat? y := by
  unfold seat?
  rw [block?_edit]
  obtain ⟨b, hb⟩ := Option.isSome_iff_exists.mp hc
  split
  · rename_i h; subst h; simp [hb]
  · rfl

/-! ### Cutting and binding -/

/-- A block in a slot is in no other one. -/
theorem Linked.unique (h : w.Linked) {p q c : String} {s t : Slot} (hp : w.child? p s = some c)
    (hq : w.child? q t = some c) : p = q ∧ s = t := by
  have := ((h p s c).mp hp).symm.trans ((h q t c).mp hq)
  simpa using this

theorem child?_cut (h : w.Linked) (x p : String) (s : Slot) :
    (w.cut x).child? p s = if w.child? p s = some x then none else w.child? p s := by
  unfold cut
  cases hx : w.seat? x with
  | none =>
      have : w.child? p s ≠ some x := fun hc => by
        rw [(h p s x).mp hc] at hx; cases hx
      simp [this]
  | some q =>
      obtain ⟨q, t⟩ := q
      have hq : w.child? p s = some x ↔ q = p ∧ t = s := by
        rw [h p s x, hx]; simp
      simp only [hq]
      rw [child?_edit (fun b s => b.child?_loosen s), child?_edit_vacate]

theorem seat?_cut (w : Workspace) (x y : String) :
    (w.cut x).seat? y = if x = y then none else w.seat? y := by
  unfold cut
  cases hx : w.seat? x with
  | none =>
      by_cases h : x = y
      · subst h; simp [hx]
      · simp [h]
  | some q =>
      simp only
      rw [seat?_edit_loosen, seat?_edit fun b => b.seat?_vacate q.2]

theorem core?_cut (w : Workspace) (x y : String) : (w.cut x).core? y = w.core? y := by
  unfold cut
  split
  · rfl
  · rw [core?_edit fun b => b.core_loosen, core?_edit fun b => b.core_vacate _]

theorem Linked.cut (h : w.Linked) (x : String) : (w.cut x).Linked := by
  intro p s c
  rw [child?_cut h, seat?_cut]
  by_cases hx : x = c
  · subst hx
    simp
  · rw [if_neg hx, ← h p s c]
    split
    · rename_i hp; rw [hp]; simp [hx]
    · rfl

section

variable {p c : String} {s : Slot} (hp : (w.block? p).isSome) (hc : (w.block? c).isSome)

include hp in
theorem child?_bind (q : String) (t : Slot) :
    (w.bind p s c).child? q t = if p = q ∧ s = t then some c else w.child? q t := by
  unfold bind
  rw [child?_edit fun b t => b.child?_settle p s t, child?_edit_occupy hp]

include hc in
theorem seat?_bind (y : String) :
    (w.bind p s c).seat? y = if c = y then some (p, s) else w.seat? y := by
  unfold bind
  rw [seat?_edit_settle, seat?_edit fun b => b.seat?_occupy c s]
  rw [block?_edit]
  split <;> simpa using hc

theorem core?_bind (y : String) : (w.bind p s c).core? y = w.core? y := by
  unfold bind
  rw [core?_edit fun b => b.core_settle p s, core?_edit fun b => b.core_occupy c s]

include hp hc in
/-- A block that hangs nowhere may be put into a slot that is vacant. -/
theorem Linked.bind (h : w.Linked) (hs : w.child? p s = none) (hx : w.seat? c = none) :
    (w.bind p s c).Linked := by
  intro q t d
  rw [child?_bind hp, seat?_bind hc]
  by_cases hq : p = q ∧ s = t
  · obtain ⟨rfl, rfl⟩ := hq
    by_cases hd : c = d
    · simp [hd]
    · have : w.seat? d ≠ some (p, s) := fun he => by
        rw [(h p s d).mpr he] at hs; cases hs
      simp [hd, this]
  · rw [if_neg hq, h q t d]
    by_cases hd : c = d
    · subst hd
      simpa [hx, Prod.ext_iff] using hq
    · rw [if_neg hd]

end

end Workspace

end Blockwork
