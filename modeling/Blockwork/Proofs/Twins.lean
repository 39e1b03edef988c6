import Mathlib.Data.List.Forall2
import Blockwork.Archive
import Blockwork.Proofs.Sound

/-!
# Twins

Two workspaces are parallel when they have the same blocks in the same order, apart from the names
(`Workspace.Parallel`), and twins when the names that they are still to give go together as well
(`Workspace.Twins`).  Nothing is asked of them but that their names go together one to one.  What is
found under names that go together is the same apart from names, and walks that begin there come
upon the same.

Two actions are `Alike` when they end alike wherever they begin in states that go together.
-/

namespace Blockwork

/-! ### Actions that end alike -/

section

variable {ε ε' σ τ α β α' β' : Type} {S : σ → τ → Prop} {K : ε → ε' → Prop} {Q : α → β → Prop}
  {Q' : α' → β' → Prop}

/-- Whether two actions end alike where they begin in states that go together: both with an answer,
or both with an error, with answers or errors that go together, and in states that do. -/
def Alike (S : σ → τ → Prop) (K : ε → ε' → Prop) (Q : α → β → Prop) (x : EStateM ε σ α)
    (y : EStateM ε' τ β) : Prop :=
  ∀ s t, S s t → match x s, y t with
    | .ok a s', .ok b t' => Q a b ∧ S s' t'
    | .error e s', .error e' t' => K e e' ∧ S s' t'
    | _, _ => False

namespace Alike

variable {x : EStateM ε σ α} {y : EStateM ε' τ β}

theorem pure {a : α} {b : β} (h : Q a b) :
    Alike S K Q (pure a : EStateM ε σ α) (pure b : EStateM ε' τ β) := fun _ _ hs => ⟨h, hs⟩

theorem throw {e : ε} {e' : ε'} (h : K e e') :
    Alike S K Q (throw e : EStateM ε σ α) (throw e' : EStateM ε' τ β) := fun _ _ hs => ⟨h, hs⟩

theorem get : Alike S K S (get : EStateM ε σ σ) (get : EStateM ε' τ τ) := fun _ _ hs => ⟨hs, hs⟩

theorem modify {f : σ → σ} {g : τ → τ} (h : ∀ s t, S s t → S (f s) (g t)) :
    Alike S K (fun _ _ => True) (modify f : EStateM ε σ Unit) (modify g : EStateM ε' τ Unit) :=
  fun s t hs => ⟨trivial, h s t hs⟩

theorem bind {f : α → EStateM ε σ α'} {g : β → EStateM ε' τ β'} (h : Alike S K Q x y)
    (k : ∀ a b, Q a b → Alike S K Q' (f a) (g b)) : Alike S K Q' (x >>= f) (y >>= g) := by
  intro s t hs
  have hxy := h s t hs
  simp only [Bind.bind, EStateM.bind]
  cases hx : x s <;> cases hy : y t <;> rw [hx, hy] at hxy
  · exact k _ _ hxy.1 _ _ hxy.2
  · exact hxy.elim
  · exact hxy.elim
  · exact hxy

theorem map {f : α → α'} {g : β → β'} (h : Alike S K Q x y) (k : ∀ a b, Q a b → Q' (f a) (g b)) :
    Alike S K Q' (f <$> x) (g <$> y) := by
  rw [map_eq_pure_bind, map_eq_pure_bind]
  exact h.bind fun a b hab => pure (k a b hab)

/-- Actions that end alike have answers together. -/
theorem exists_ok (h : Alike S K Q x y) {s s' : σ} {t : τ} {a : α} (hs : S s t)
    (hx : x s = .ok a s') : ∃ b t', y t = .ok b t' ∧ Q a b ∧ S s' t' := by
  have hxy := h s t hs
  rw [hx] at hxy
  cases hy : y t <;> rw [hy] at hxy
  · exact ⟨_, _, rfl, hxy⟩
  · exact hxy.elim

end Alike

end

/-- Whether two errors count alike when a workspace is rebuilt: both say that the document is not in
order, or neither does. -/
def Error.Kin (e e' : Error) : Prop :=
  Archive.isUnreadable (Snapshot.asDamage e) = Archive.isUnreadable (Snapshot.asDamage e')

theorem Error.Kin.refl (e : Error) : e.Kin e := rfl

/-! ### Names that go together -/

/-- Whether names go together one to one, and the empty name with none. -/
structure OneToOne (R : String → String → Prop) : Prop where
  left : ∀ {x x' y}, R x y → R x' y → x = x'
  right : ∀ {x y y'}, R x y → R x y' → y = y'
  nonempty : ∀ {x y}, R x y → x ≠ "" ∧ y ≠ ""

/-- Whether two keys are names that go together, or both `null`. -/
inductive Key.Twin (R : String → String → Prop) : Key → Key → Prop where
  | null : Twin R .null .null
  | text {x y : String} : R x y → Twin R (.text x) (.text y)

/-- Whether two links lead to names that go together, or both nowhere. -/
inductive Value.Twin (R : String → String → Prop) : Value → Value → Prop where
  | null : Twin R .null .null
  | text {x y : String} : R x y → Twin R (.text x) (.text y)

variable {R : String → String → Prop}

theorem Key.Twin.ofKey {k j : Key} (h : Key.Twin R k j) :
    Value.Twin R (.ofKey k) (.ofKey j) := by
  cases h with
  | null => exact .null
  | text h => exact .text h

namespace Value.Twin

variable {v v' : Value}

theorem eq_null_iff (h : Value.Twin R v v') : v = .null ↔ v' = .null := by
  cases h <;> simp

theorem exists_toKey (h : Value.Twin R v v') :
    ∃ k j, v.toKey = .ok k ∧ v'.toKey = .ok j ∧ Key.Twin R k j := by
  cases h with
  | null => exact ⟨_, _, rfl, rfl, .null⟩
  | text h => exact ⟨_, _, rfl, rfl, .text h⟩

end Value.Twin

namespace OneToOne

variable (hR : OneToOne R)

include hR

theorem eq_iff {x x' y y' : String} (h : R x y) (h' : R x' y') : x = x' ↔ y = y' :=
  ⟨fun e => hR.right (e ▸ h) h', fun e => hR.left (e ▸ h) h'⟩

theorem beq_key {k k' j j' : Key} (h : Key.Twin R k j) (h' : Key.Twin R k' j') :
    (k == k') = (j == j') := by
  cases h with
  | null => cases h' <;> rfl
  | text h =>
      cases h' with
      | null => rfl
      | text h' => simp only [Key.beq_text, hR.eq_iff h h']

theorem same_value {v v' u u' : Value} (h : Value.Twin R v u) (h' : Value.Twin R v' u') :
    v.same v' = u.same u' := by
  rw [Bool.eq_iff_iff]
  cases h with
  | null =>
      cases h' with
      | null => exact Iff.rfl
      | text h' => simp [Value.same_text_right]
  | text h =>
      cases h' with
      | null => simp [Value.same_text_left]
      | text h' => simp [hR.eq_iff h h', eq_comm]

theorem isTruthy_value {v u : Value} (h : Value.Twin R v u) : v.isTruthy = u.isTruthy := by
  cases h with
  | null => rfl
  | text h =>
      obtain ⟨hx, hy⟩ := hR.nonempty h
      rw [Bool.eq_iff_iff]
      simp [Value.isTruthy, hx, hy]

end OneToOne

/-! ### Entries that go together -/

theorem rel_getLast? {α β : Type} {Q : α → β → Prop} {as : List α} {bs : List β}
    (h : List.Forall₂ Q as bs) : Option.Rel Q as.getLast? bs.getLast? := by
  induction h with
  | nil => exact .none
  | cons h hs ih =>
      cases hs with
      | nil => exact .some h
      | cons h' hs' =>
          rw [List.getLast?_cons_cons, List.getLast?_cons_cons]
          exact ih

namespace Entries

variable {κ κ' β β' : Type} [BEq κ] [BEq κ'] {P : κ → κ' → Prop} {Q : β → β' → Prop}
  {es : List (κ × β)} {fs : List (κ' × β')} {k : κ} {j : κ'}

section

variable (h : List.Forall₂ (fun e f => P e.1 f.1 ∧ Q e.2 f.2) es fs)
  (hk : ∀ i l, P i l → (i == k) = (l == j))

include h hk

theorem rel_get? : Option.Rel Q (get? es k) (get? fs j) := by
  unfold get?
  induction h with
  | nil => exact .none
  | @cons e f es fs hef _ ih =>
      rw [List.find?_cons, List.find?_cons, hk _ _ hef.1]
      split
      · exact .some hef.2
      · exact ih

theorem forall₂_put (hkj : P k j) {v : β} {u : β'} (hv : Q v u) :
    List.Forall₂ (fun e f => P e.1 f.1 ∧ Q e.2 f.2) (put es k v) (put fs j u) := by
  induction h with
  | nil => exact .cons ⟨hkj, hv⟩ .nil
  | @cons e f es fs hef hrest ih =>
      simp only [put, hk _ _ hef.1]
      split
      · exact .cons ⟨hef.1, hv⟩ hrest
      · exact .cons hef ih

theorem forall₂_erase :
    List.Forall₂ (fun e f => P e.1 f.1 ∧ Q e.2 f.2) (erase es k) (erase fs j) := by
  unfold erase
  induction h with
  | nil => exact .nil
  | @cons e f es fs hef _ ih =>
      rw [List.filter_cons, List.filter_cons, hk _ _ hef.1]
      split
      · exact .cons hef ih
      · exact ih

end

end Entries

/-! ### Blocks and workspaces -/

/-- Whether two blocks are the same apart from names. -/
structure Block.Twin (R : String → String → Prop) (b c : Block) : Prop where
  id : Value.Twin R b.id c.id
  inputs : List.Forall₂ (fun e f => e.1 = f.1 ∧ Value.Twin R e.2 f.2) b.inputs c.inputs
  next : Value.Twin R b.next c.next
  parent : Value.Twin R b.parent c.parent
  type : b.type = c.type
  fields : b.fields = c.fields
  parentInput : b.parentInput = c.parentInput
  position : b.position = c.position
  enabled : b.enabled = c.enabled
  colour : b.colour = c.colour
  savedColour : b.savedColour = c.savedColour

/-- Whether two workspaces have the same blocks in the same order, apart from names, and numbers of
created blocks that go together. -/
structure Workspace.Parallel (R : String → String → Prop) (M : Nat → Nat → Prop)
    (w u : Workspace) : Prop where
  vocabulary : w.vocabulary = u.vocabulary
  muted : w.muted = u.muted
  entries : List.Forall₂ (fun e f => Key.Twin R e.1 f.1 ∧ Block.Twin R e.2 f.2) w.entries u.entries
  created : M w.created u.created

/-- Whether the names that are given after so many created blocks go together. -/
def Minting (R : String → String → Prop) (m n : Nat) : Prop :=
  ∀ i, R (Workspace.mint (m + i + 1)) (Workspace.mint (n + i + 1))

/-- Whether two workspaces have the same blocks in the same order, apart from names, and will give
names that go together. -/
structure Workspace.Twins (R : String → String → Prop) (w u : Workspace) : Prop where
  vocabulary : w.vocabulary = u.vocabulary
  muted : w.muted = u.muted
  entries : List.Forall₂ (fun e f => Key.Twin R e.1 f.1 ∧ Block.Twin R e.2 f.2) w.entries u.entries
  mints : ∀ i, R (mint (w.created + i + 1)) (mint (u.created + i + 1))

/-! ### Answers that go together -/

/-- Whether two answers go together: both are answers that do, or both are errors that do. -/
inductive Except.Twin {ε ε' α β : Type} (K : ε → ε' → Prop) (Q : α → β → Prop) :
    Except ε α → Except ε' β → Prop where
  | ok {a : α} {b : β} : Q a b → Twin K Q (.ok a) (.ok b)
  | error {e : ε} {e' : ε'} : K e e' → Twin K Q (.error e) (.error e')

namespace Except.Twin

variable {ε ε' α β α' β' : Type} {K K' : ε → ε' → Prop} {Q Q' : α → β → Prop} {P : α' → β' → Prop}
  {r : Except ε α} {r' : Except ε' β}

theorem refl {K : ε → ε → Prop} (hK : ∀ e, K e e) (r : Except ε α) : Except.Twin K Eq r r := by
  cases r with
  | ok a => exact .ok rfl
  | error e => exact .error (hK e)

theorem mono (h : Except.Twin K Q r r') (hK : ∀ e e', K e e' → K' e e')
    (hQ : ∀ a b, Q a b → Q' a b) : Except.Twin K' Q' r r' := by
  cases h with
  | ok h => exact .ok (hQ _ _ h)
  | error h => exact .error (hK _ _ h)

theorem bind {f : α → Except ε α'} {g : β → Except ε' β'} (h : Except.Twin K Q r r')
    (k : ∀ a b, Q a b → Except.Twin K P (f a) (g b)) : Except.Twin K P (r >>= f) (r' >>= g) := by
  cases h with
  | ok h => exact k _ _ h
  | error h => exact .error h

theorem mapM {f : α → Except ε α'} {g : β → Except ε' β'} {as : List α} {bs : List β}
    (h : List.Forall₂ Q as bs) (k : ∀ a b, Q a b → Except.Twin K P (f a) (g b)) :
    Except.Twin K (List.Forall₂ P) (as.mapM f) (bs.mapM g) := by
  induction h with
  | nil => exact .ok .nil
  | cons hab _ ih =>
      rw [List.mapM_cons, List.mapM_cons]
      exact (k _ _ hab).bind fun _ _ h => ih.bind fun _ _ hs => .ok (.cons h hs)

theorem foldlM {f : α' → α → Except ε α'} {g : β' → β → Except ε' β'} {as : List α} {bs : List β}
    (h : List.Forall₂ Q as bs)
    (k : ∀ x y a b, P x y → Q a b → Except.Twin K P (f x a) (g y b)) {x : α'} {y : β'}
    (hxy : P x y) : Except.Twin K P (as.foldlM f x) (bs.foldlM g y) := by
  induction h generalizing x y with
  | nil => exact .ok hxy
  | cons hab _ ih =>
      rw [List.foldlM_cons, List.foldlM_cons]
      exact (k _ _ _ _ hxy hab).bind fun _ _ h => ih h

end Except.Twin

namespace Workspace

variable {w u : Workspace} {M : Nat → Nat → Prop}

theorem twins_iff : w.Twins R u ↔ w.Parallel R (Minting R) u :=
  ⟨fun h => ⟨h.vocabulary, h.muted, h.entries, h.mints⟩,
    fun h => ⟨h.vocabulary, h.muted, h.entries, h.created⟩⟩

/-- Twins stay twins, however often changes are kept from the audience. -/
theorem Twins.hushed (h : w.Twins R u) (muted : Nat) :
    ({ w with muted } : Workspace).Twins R { u with muted } :=
  ⟨h.vocabulary, rfl, h.entries, h.mints⟩

namespace Parallel

variable {b c : Block} {k j : Key}

theorem declarationOf_eq (h : w.Parallel R M u) (hb : b.Twin R c) :
    w.declarationOf b = u.declarationOf c := by
  unfold declarationOf
  rw [h.vocabulary, hb.type]

section

variable (hR : OneToOne R) (h : w.Parallel R M u) (hk : Key.Twin R k j)

include hR h hk

theorem find? : Option.Rel (Block.Twin R) (w.find? k) (u.find? j) := by
  unfold Workspace.find?
  rw [Table.find?_eq, Table.find?_eq]
  exact Entries.rel_get? h.entries fun i l hil => hR.beq_key hil hk

theorem contains : w.contains k = u.contains j := by
  have hrel := h.find? hR hk
  change (w.find? k).isSome = (u.find? j).isSome
  generalize w.find? k = b at hrel
  generalize u.find? j = c at hrel
  cases hrel <;> rfl

theorem put (hb : b.Twin R c) {m n : Nat} (hm : M m n) :
    ({ w with table := w.table.put k b, created := m } : Workspace).Parallel R M
      { u with table := u.table.put j c, created := n } where
  vocabulary := h.vocabulary
  muted := h.muted
  created := hm
  entries := by
    simp only [Workspace.entries, Table.entries_put]
    exact Entries.forall₂_put h.entries (fun i l hil => hR.beq_key hil hk) hk hb

theorem erase : ({ w with table := w.table.erase k } : Workspace).Parallel R M
    { u with table := u.table.erase j } where
  vocabulary := h.vocabulary
  muted := h.muted
  created := h.created
  entries := by
    simp only [Workspace.entries, Table.entries_erase]
    exact Entries.forall₂_erase h.entries fun i l hil => hR.beq_key hil hk

theorem modify {f g : Block → Block} (hf : ∀ b c, b.Twin R c → (f b).Twin R (g c)) :
    ({ w with table := w.table.modify k f } : Workspace).Parallel R M
      { u with table := u.table.modify j g } := by
  have hrel : Option.Rel (Block.Twin R) (w.table.find? k) (u.table.find? j) := h.find? hR hk
  unfold Table.modify
  generalize w.table.find? k = b at hrel
  generalize u.table.find? j = c at hrel
  cases hrel with
  | none => exact h
  | some hbc => exact h.put hR hk (hf _ _ hbc) h.created

end

/-! ### Walks -/

theorem size_eq (h : w.Parallel R M u) : w.size = u.size := by
  change w.table.size = u.table.size
  rw [Table.size_eq, Table.size_eq]
  exact h.entries.length_eq

section

variable (hR : OneToOne R) (h : w.Parallel R M u)

include hR h

/-- Walking up, one comes upon names that go together. -/
theorem reachesUp_eq {v v' : Value} (hv : Value.Twin R v v') (n : Nat) (hk : Key.Twin R k j) :
    w.reachesUp v n k = u.reachesUp v' n j := by
  induction n generalizing k j with
  | zero => rfl
  | succ n ih =>
      have hrel := h.find? hR hk
      unfold reachesUp
      generalize w.find? k = b at hrel
      generalize u.find? j = c at hrel
      cases hrel with
      | none => rfl
      | some hbc =>
          obtain ⟨i, l, hi, hl, hil⟩ := hbc.parent.exists_toKey
          simp only [hR.same_value hbc.id hv, hR.isTruthy_value hbc.parent, hi, hl]
          split
          · rfl
          · split
            · exact ih hil
            · rfl

theorem hangsFrom_eq {k' j' : Key} (hk : Key.Twin R k j) (hk' : Key.Twin R k' j') :
    w.hangsFrom k k' = u.hangsFrom j j' := by
  unfold hangsFrom
  rw [h.size_eq]
  exact h.reachesUp_eq hR hk.ofKey _ hk'

/-- Chains of names that go together are of blocks that do. -/
theorem exists_chainFrom (n : Nat) (hk : Key.Twin R k j) :
    ∃ es fs, w.chainFrom n k = .ok es ∧ u.chainFrom n j = .ok fs ∧
      List.Forall₂ (fun e f => Key.Twin R e.1 f.1 ∧ Block.Twin R e.2 f.2) es fs := by
  induction n generalizing k j with
  | zero => exact ⟨[], [], rfl, rfl, .nil⟩
  | succ n ih =>
      have hrel := h.find? hR hk
      unfold chainFrom
      generalize w.find? k = b at hrel
      generalize u.find? j = c at hrel
      cases hrel with
      | none => exact ⟨[], [], rfl, rfl, .nil⟩
      | @some b c hbc =>
          obtain ⟨i, l, hi, hl, hil⟩ := hbc.next.exists_toKey
          obtain ⟨es, fs, hes, hfs, hall⟩ := ih hil
          simp only [hR.isTruthy_value hbc.next, hi, hl]
          split
          · refine ⟨(k, b) :: es, (j, c) :: fs, ?_, ?_, .cons ⟨hk, hbc⟩ hall⟩
            · simp only [Bind.bind, Except.bind, hes]
              rfl
            · simp only [Bind.bind, Except.bind, hfs]
              rfl
          · exact ⟨[(k, b)], [(j, c)], rfl, rfl, .cons ⟨hk, hbc⟩ .nil⟩

theorem exists_chain (hk : Key.Twin R k j) :
    ∃ es fs, w.chain k = .ok es ∧ u.chain j = .ok fs ∧
      List.Forall₂ (fun e f => Key.Twin R e.1 f.1 ∧ Block.Twin R e.2 f.2) es fs := by
  unfold chain
  rw [h.size_eq]
  exact h.exists_chainFrom hR _ hk

end

end Parallel

end Workspace

end Blockwork
