import Blockwork.Proofs.Numerals
import Blockwork.Proofs.Wiring

/-!
# Sound workspaces

The invariant of workspaces (`Workspace.Sound`): every block stands under its own id, a text that is
not empty; links are `Linked`; what is in a slot is taken by it (`Declaration.Takes`); and nothing
hangs from itself.  Blocks without an id are named by a counter; whether a block has a name that is
still to be given is a question of its own (`Workspace.Minted`).

The invariant is kept when a link is cut (`Sound.cut`), and when a link is made between two blocks
where the one takes the other and does not hang from it (`Sound.bind`).
-/

namespace Blockwork

open Forest (Rooted Hangs)

/-! ### What is in a slot -/

/-- Whether blocks of a type may be in a slot of blocks of another type. -/
def Declaration.Takes (d : Declaration) (s : Slot) (e : Declaration) : Prop :=
  match s with
  | none => d.next = true ∧ e.previous = true
  | some s => ∃ socket, d.input? (.text s) = some socket ∧ e.isValue = true ∧
      e.fits socket = .ok true

/-- Whether every socket has a text as its name. -/
def Vocabulary.Worded (v : Vocabulary) : Prop :=
  ∀ d ∈ v.declarations, ∀ s ∈ d.sockets, ∃ name, s.name = .text name

theorem Vocabulary.mem_of_get {v : Vocabulary} {k : Key} {d : Declaration} (h : v.get k = .ok d) :
    d ∈ v.declarations := by
  unfold get at h
  split at h
  · rename_i e he
    cases h
    exact List.mem_of_find?_eq_some he
  · cases h

/-- In a worded vocabulary a socket is found under its name only. -/
theorem Declaration.input?_eq_some {v : Vocabulary} (hv : v.Worded) {d : Declaration}
    (hd : d ∈ v.declarations) {name : Value} {socket : Socket}
    (h : d.input? name = some socket) : ∃ s, name = .text s ∧ socket.name = .text s := by
  obtain ⟨h, -⟩ := Option.filter_eq_some_iff.mp h
  obtain ⟨s, hs⟩ := hv d hd socket (List.mem_of_find?_eq_some h)
  have same := List.find?_some h
  rw [hs, Value.same_text_left] at same
  exact ⟨s, same, hs⟩

namespace Workspace

variable {w : Workspace}

/-- The declaration of the type of the block under a text. -/
def type? (w : Workspace) (x : String) : Option Declaration :=
  (w.core? x).bind fun b => (w.declarationOf b).toOption

/-- Whether a block is of a type that may be in a slot of another block. -/
def Suits (w : Workspace) (p : String) (s : Slot) (c : String) : Prop :=
  ∃ d e, w.type? p = some d ∧ w.type? c = some e ∧ d.Takes s e

/-- The name of the block that is the `n`-th to be created, when it is given none. -/
def mint (n : Nat) : String := "auto-" ++ Decimal.integer n

theorem mint_injective {m n : Nat} (h : mint m = mint n) : m = n :=
  Decimal.integer_injective (String.append_right_inj _ |>.mp h)

theorem mint_ne_empty (n : Nat) : mint n ≠ "" := fun e => by
  have := congrArg String.length e
  simp [mint] at this

/-! ### The invariant -/

/-- Whether every block stands under its own id, a text that is not empty. -/
def Named (w : Workspace) : Prop :=
  ∀ k b, w.find? k = some b → ∃ x, x ≠ "" ∧ k = .text x ∧ b.id = .text x

/-- **The invariant of workspaces.** -/
structure Sound (w : Workspace) : Prop where
  worded : w.vocabulary.Worded
  named : w.Named
  shaped : ∀ x b, w.block? x = some b → b.Shaped
  linked : w.Linked
  typed : ∀ x, (w.block? x).isSome → (w.type? x).isSome
  suited : ∀ p s c, w.seat? c = some (p, s) → w.Suits p s c
  rooted : Rooted w.above?

/-- Whether no block has a name that is still to be given. -/
def Minted (w : Workspace) : Prop := ∀ n, w.created < n → w.block? (mint n) = none

namespace Sound

variable {x y p c : String} {s : Slot} {b : Block}

theorem id_eq (h : w.Sound) (hb : w.block? x = some b) : b.id = .text x := by
  obtain ⟨y, -, hy, hid⟩ := h.named _ _ hb
  cases hy
  exact hid

theorem ne_empty (h : w.Sound) (hb : w.block? x = some b) : x ≠ "" := by
  obtain ⟨y, hy, hx, -⟩ := h.named _ _ hb
  cases hx
  exact hy

theorem key_text (h : w.Sound) {k : Key} (hb : w.find? k = some b) :
    ∃ x, k = .text x ∧ w.block? x = some b := by
  obtain ⟨x, -, rfl, -⟩ := h.named _ _ hb
  exact ⟨x, rfl, hb⟩

/-- The link to the next block is the one that follows. -/
theorem next_eq (h : w.Sound) (hb : w.block? x = some b) : b.next = .ofText? (w.child? x none) := by
  rw [child?, hb, Option.bind_some, (h.shaped x b hb).next_eq]

/-- The link to the parent is to the block above. -/
theorem parent_eq (h : w.Sound) (hb : w.block? x = some b) : b.parent = .ofText? (w.above? x) := by
  rw [above?, seat?, hb, Option.bind_some, (h.shaped x b hb).parent_eq]

/-- A block is at the top just when it hangs nowhere. -/
theorem isTop_iff (h : w.Sound) (hb : w.block? x = some b) :
    b.isTop = true ↔ w.above? x = none := by
  rw [Block.isTop, beq_iff_eq, h.parent_eq hb]
  cases w.above? x <;> simp [Value.ofText?]

end Sound

/-! ### What a type depends on -/

theorem isSome_core? (w : Workspace) (x : String) : (w.core? x).isSome = (w.block? x).isSome := by
  simp [core?]

theorem type?_eq_some {x : String} {d : Declaration} :
    w.type? x = some d ↔ ∃ b, w.block? x = some b ∧ w.declarationOf b = .ok d := by
  unfold type? core?
  cases w.block? x with
  | none => simp
  | some b =>
      -- the declaration is that of the type, which is no link
      change (w.declarationOf b).toOption = some d ↔ _
      simp only [Option.some.injEq, exists_eq_left']
      cases w.declarationOf b <;> simp [Except.toOption]

theorem isSome_of_type? {x : String} {d : Declaration} (h : w.type? x = some d) :
    (w.block? x).isSome := by
  obtain ⟨b, hb, -⟩ := type?_eq_some.mp h
  rw [hb]
  rfl

theorem Suits.isSome_parent {p c : String} {s : Slot} (h : w.Suits p s c) :
    (w.block? p).isSome := by
  obtain ⟨_, _, hd, -, -⟩ := h
  exact isSome_of_type? hd

theorem Suits.isSome_child {p c : String} {s : Slot} (h : w.Suits p s c) :
    (w.block? c).isSome := by
  obtain ⟨_, _, -, he, -⟩ := h
  exact isSome_of_type? he

theorem type?_congr {w' : Workspace} (hv : w'.vocabulary = w.vocabulary) {x : String}
    (hx : w'.core? x = w.core? x) : w'.type? x = w.type? x := by
  unfold type? declarationOf
  rw [hx, hv]

theorem mem_of_type? {x : String} {d : Declaration} (h : w.type? x = some d) :
    d ∈ w.vocabulary.declarations := by
  obtain ⟨b, -, hd⟩ := type?_eq_some.mp h
  unfold declarationOf at hd
  cases hk : b.type.toKey with
  | ok k => rw [hk] at hd; exact Vocabulary.mem_of_get hd
  | error e => rw [hk] at hd; cases hd

/-- Whether two workspaces have the same blocks but for their links. -/
structure SameCore (w w' : Workspace) : Prop where
  vocabulary : w'.vocabulary = w.vocabulary
  created : w'.created = w.created
  core? : ∀ x, w'.core? x = w.core? x

namespace SameCore

variable {w' : Workspace} {x : String}

theorem type? (h : SameCore w w') (x : String) : w'.type? x = w.type? x :=
  type?_congr h.vocabulary (h.core? x)

theorem isSome_block? (h : SameCore w w') (x : String) :
    (w'.block? x).isSome = (w.block? x).isSome := by
  rw [← isSome_core?, h.core?, isSome_core?]

theorem block?_eq_none (h : SameCore w w') : w'.block? x = none ↔ w.block? x = none := by
  rw [← Option.not_isSome_iff_eq_none, h.isSome_block?, Option.not_isSome_iff_eq_none]

theorem suits (h : SameCore w w') {p c : String} {s : Slot} :
    w'.Suits p s c ↔ w.Suits p s c := by
  unfold Suits
  rw [h.type?, h.type?]

theorem minted (h : SameCore w w') (hw : w.Minted) : w'.Minted := fun n hn =>
  h.block?_eq_none.mpr (hw n (h.created ▸ hn))

end SameCore

theorem sameCore_cut (w : Workspace) (x : String) : SameCore w (w.cut x) where
  vocabulary := by unfold cut; split <;> rfl
  created := by unfold cut; split <;> rfl
  core? := core?_cut w x

theorem sameCore_bind (w : Workspace) (p : String) (s : Slot) (c : String) :
    SameCore w (w.bind p s c) where
  vocabulary := rfl
  created := rfl
  core? := core?_bind

/-! ### Ids and shapes after a change -/

theorem Named.edit (h : w.Named) {x : String} {f : Block → Block} (hf : ∀ b, (f b).id = b.id) :
    (w.edit x f).Named := by
  intro k b hb
  simp only [find?, Workspace.edit, Table.find?_modify] at hb
  split at hb
  · obtain ⟨c, hc, rfl⟩ := Option.map_eq_some_iff.mp hb
    rw [hf]
    exact h k c hc
  · exact h k b hb

theorem shaped_edit (h : ∀ x b, w.block? x = some b → b.Shaped) {x : String} {f : Block → Block}
    (hf : ∀ b, b.Shaped → (f b).Shaped) (y : String) (b : Block)
    (hb : (w.edit x f).block? y = some b) : b.Shaped := by
  rw [block?_edit] at hb
  split at hb
  · obtain ⟨c, hc, rfl⟩ := Option.map_eq_some_iff.mp hb
    exact hf c (h y c hc)
  · exact h y b hb

theorem Named.cut (h : w.Named) (x : String) : (w.cut x).Named := by
  unfold Workspace.cut
  split
  · exact h
  · rename_i s _
    refine (h.edit fun b => ?_).edit fun b => rfl
    cases s <;> rfl

theorem Named.bind (h : w.Named) (p : String) (s : Slot) (c : String) : (w.bind p s c).Named := by
  refine (h.edit fun b => ?_).edit fun b => rfl
  cases s <;> rfl

/-! ### Cutting and binding -/

theorem above?_cut (w : Workspace) (x y : String) :
    (w.cut x).above? y = if x = y then none else w.above? y := by
  unfold above?
  rw [seat?_cut]
  split <;> rfl

theorem above?_bind {p c : String} {s : Slot} (hc : (w.block? c).isSome) (y : String) :
    (w.bind p s c).above? y = if c = y then some p else w.above? y := by
  unfold above?
  rw [seat?_bind hc]
  split <;> rfl

theorem hangs_of_hangs_cut {x y z : String} (h : Hangs (w.cut x).above? y z) :
    Hangs w.above? y z := by
  refine Hangs.of_shrink (fun y => ?_) h
  rw [above?_cut]
  split
  · exact .inr rfl
  · exact .inl rfl

/-- A link may be cut. -/
theorem Sound.cut (h : w.Sound) (x : String) : (w.cut x).Sound where
  worded := (sameCore_cut w x).vocabulary ▸ h.worded
  named := h.named.cut x
  shaped := by
    unfold Workspace.cut
    split
    · exact h.shaped
    · exact shaped_edit (shaped_edit h.shaped fun b hb => hb.vacate _) fun b hb => hb.loosen
  linked := h.linked.cut x
  typed y hy := by
    rw [(sameCore_cut w x).type?]
    rw [(sameCore_cut w x).isSome_block?] at hy
    exact h.typed y hy
  suited p s c hc := by
    rw [(sameCore_cut w x).suits]
    rw [seat?_cut] at hc
    split at hc
    · cases hc
    · exact h.suited p s c hc
  rooted := by
    refine h.rooted.shrink fun y => ?_
    rw [above?_cut]
    split
    · exact .inr rfl
    · exact .inl rfl

/-- A block that hangs nowhere may be put into a vacant slot that takes it, of a block that does not
hang from it. -/
theorem Sound.bind (h : w.Sound) {p c : String} {s : Slot} (hs : w.child? p s = none)
    (hc : w.seat? c = none) (hpc : w.Suits p s c) (hh : ¬ Hangs w.above? p c) :
    (w.bind p s c).Sound := by
  have hp := hpc.isSome_parent
  have hc' := hpc.isSome_child
  obtain ⟨d, e, hd, he, ht⟩ := hpc
  have same := sameCore_bind w p s c
  exact
    { worded := h.worded
      named := h.named.bind p s c
      shaped :=
        shaped_edit (shaped_edit h.shaped fun b hb => hb.occupy c s) fun b hb => hb.settle p s
      linked := h.linked.bind hp hc' hs hc
      typed := fun y hy => by
        rw [same.type?]
        rw [same.isSome_block?] at hy
        exact h.typed y hy
      suited := fun q t y hy => by
        rw [same.suits]
        rw [seat?_bind hc'] at hy
        split at hy
        · rename_i hcy
          subst hcy
          cases hy
          exact ⟨d, e, hd, he, ht⟩
        · exact h.suited q t y hy
      rooted := by
        refine h.rooted.graft hh ?_ fun y hy => ?_
        · rw [above?_bind hc', if_pos rfl]
        · rw [above?_bind hc', if_neg (Ne.symm hy)] }

end Workspace

end Blockwork
