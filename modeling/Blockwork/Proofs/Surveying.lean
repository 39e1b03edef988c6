import Blockwork.Proofs.Relabelling
import Blockwork.Proofs.Twins
import Blockwork.Workspace.Audit

/-!
# Surveys of parallel workspaces

What is read of a whole workspace is read of a parallel one as well, under the names that go
together: what hangs from a block (`Workspace.Parallel.twin_descendants`), which blocks hang nowhere,
in which order (`Workspace.Parallel.twin_tops`), and how much is wrong with it
(`Workspace.Parallel.twin_audit`), be the workspaces in order or not.
-/

namespace Blockwork

variable {R : String → String → Prop} {M : Nat → Nat → Prop}

theorem length_flatten_of_forall₂ {α β : Type} {as : List (List α)} {bs : List (List β)}
    (h : List.Forall₂ (fun a b => a.length = b.length) as bs) :
    as.flatten.length = bs.flatten.length := by
  induction h with
  | nil => rfl
  | cons hab _ ih => rw [List.flatten_cons, List.flatten_cons, List.length_append, hab, ih,
      List.length_append]

theorem forall₂_zipIdx {α β : Type} {Q : α → β → Prop} {as : List α} {bs : List β}
    (h : List.Forall₂ Q as bs) (n : Nat) :
    List.Forall₂ (fun e f => Q e.1 f.1 ∧ e.2 = f.2) (as.zipIdx n) (bs.zipIdx n) := by
  induction h generalizing n with
  | nil => exact .nil
  | cons hab _ ih =>
      rw [List.zipIdx_cons, List.zipIdx_cons]
      exact .cons ⟨hab, rfl⟩ (ih (n + 1))

theorem findIdx?_eq_of_forall₂ {α β : Type} {Q : α → β → Prop} {p : α → Bool} {q : β → Bool}
    {as : List α} {bs : List β} (hpq : ∀ a b, Q a b → p a = q b) (h : List.Forall₂ Q as bs) :
    as.findIdx? p = bs.findIdx? q := by
  induction h with
  | nil => rfl
  | cons hab _ ih => rw [List.findIdx?_cons, List.findIdx?_cons, hpq _ _ hab, ih]

theorem Value.Twin.toKey {v v' : Value} {K : Error → Error → Prop} (h : Value.Twin R v v') :
    Except.Twin K (Key.Twin R) v.toKey v'.toKey := by
  obtain ⟨k, j, hk, hj, hkj⟩ := h.exists_toKey
  rw [hk, hj]
  exact .ok hkj

theorem OneToOne.beq_name (hR : OneToOne R) {k k' j j' : Key} (h : Key.Twin R k j)
    (h' : Key.Twin R k' j') : k.name = k'.name ↔ j.name = j'.name := by
  rw [← Key.beq_iff_name, ← Key.beq_iff_name, hR.beq_key h h']

namespace Block.Twin

variable {b c : Block}

theorem targets (hR : OneToOne R) (h : b.Twin R c) :
    List.Forall₂ (Value.Twin R) b.targets c.targets := by
  unfold Block.targets
  refine List.rel_append ?_ ?_
  · rw [List.forall₂_map_left_iff, List.forall₂_map_right_iff]
    exact h.inputs.imp fun _ _ he => he.2
  · rw [hR.isTruthy_value h.next]
    split
    · exact .cons h.next .nil
    · exact .nil

theorem isTop_eq (h : b.Twin R c) : b.isTop = c.isTop := by
  rw [Bool.eq_iff_iff, Block.isTop, Block.isTop, beq_iff_eq, beq_iff_eq, h.parent.eq_null_iff]

end Block.Twin

namespace Workspace

/-- Whether two blocks with what they are placed by are the same apart from names. -/
structure Spot.Twin (R : String → String → Prop) (s t : Spot) : Prop where
  block : s.block.Twin R t.block
  y : s.y = t.y
  x : s.x = t.x
  rank : s.rank = t.rank

theorem Spot.Twin.before_eq {s s' t t' : Spot} (h : s.Twin R t) (h' : s'.Twin R t') :
    s.before s' = t.before t' := by
  rw [Spot.before, Spot.before, h.y, h.x, h.rank, h'.y, h'.x, h'.rank]

/-- Whether two searches for cycles have come upon the same, apart from names. -/
def Marks.Twin (R : String → String → Prop) (m m' : Marks) : Prop :=
  ∀ k j, Key.Twin R k j → m[k.name]? = m'[j.name]?

theorem Marks.Twin.insert (hR : OneToOne R) {m m' : Marks} (h : Marks.Twin R m m') {k j : Key}
    (hk : Key.Twin R k j) (seen : Bool) : Marks.Twin R (m.insert k.name seen) (m'.insert j.name seen) := by
  intro k' j' hk'
  rw [Std.HashMap.getElem?_insert, Std.HashMap.getElem?_insert, h k' j' hk']
  simp only [beq_iff_eq, hR.beq_name hk hk']

theorem hasCycle_of_ok {w : Workspace} {m : Marks} (h : w.entries.foldlM
    (fun marks e => w.searchFrom (w.size + 1) marks e.1) ∅ = .ok m) : w.hasCycle = .ok false := by
  unfold hasCycle
  rw [h]

theorem hasCycle_of_cycle {w : Workspace} (h : w.entries.foldlM
    (fun marks e => w.searchFrom (w.size + 1) marks e.1) ∅ = .error .cycle) :
    w.hasCycle = .ok true := by
  unfold hasCycle
  rw [h]

namespace Parallel

variable {w u : Workspace} {b c : Block} {k j : Key} (hR : OneToOne R) (h : w.Parallel R M u)

include hR h

/-! ### Walks down -/

theorem twin_descendantsFrom {K : Error → Error → Prop} (n : Nat) (hk : Key.Twin R k j) :
    Except.Twin K (List.Forall₂ (Block.Twin R)) (w.descendantsFrom n k)
      (u.descendantsFrom n j) := by
  induction n generalizing k j with
  | zero => exact .ok .nil
  | succ n ih =>
      have hrel := h.find? hR hk
      unfold descendantsFrom
      generalize w.find? k = b at hrel
      generalize u.find? j = c at hrel
      cases hrel with
      | none => exact .ok .nil
      | some hbc =>
          refine (Except.Twin.mapM (hbc.targets hR) fun t t' ht =>
            ht.toKey.bind fun _ _ hij => ih hij).bind fun bss css hall => ?_
          exact .ok (.cons hbc (List.rel_flatten hall))

/-- Below blocks whose names go together hang blocks that do. -/
theorem twin_descendants {K : Error → Error → Prop} (hk : Key.Twin R k j) :
    Except.Twin K (List.Forall₂ (Block.Twin R)) (w.descendants k) (u.descendants j) := by
  rw [descendants_eq, descendants_eq, h.size_eq]
  exact h.twin_descendantsFrom hR _ hk

theorem twin_chain {K : Error → Error → Prop} (hk : Key.Twin R k j) :
    Except.Twin K (List.Forall₂ fun e f => Key.Twin R e.1 f.1 ∧ Block.Twin R e.2 f.2)
      (w.chain k) (u.chain j) := by
  obtain ⟨es, fs, hes, hfs, hall⟩ := h.exists_chain hR hk
  rw [hes, hfs]
  exact .ok hall

/-! ### The top -/

theorem place?_eq (hk : Key.Twin R k j) : w.table.place? k = u.table.place? j :=
  findIdx?_eq_of_forall₂ (fun _ _ hef => hR.beq_key hef.1 hk) h.entries

theorem twin_rankOf (hk : Key.Twin R k j) (own : Nat) {id id' : Value} (hid : Value.Twin R id id') :
    Except.Twin Eq Eq (w.rankOf k own id) (u.rankOf j own id') := by
  unfold rankOf
  refine hid.toKey.bind fun i l hil => ?_
  rw [hR.beq_key hil hk, h.place?_eq hR hil]
  exact .refl (fun _ => rfl) _

theorem twin_spots : Except.Twin Eq (List.Forall₂ (Spot.Twin R)) w.spots u.spots := by
  have hnumbered := forall₂_zipIdx h.entries 0
  have htop := List.rel_filter (p := (·.1.2.isTop)) (q := (·.1.2.isTop))
    (fun e f hef => Eq.to_iff (congrArg (· = true) hef.1.2.isTop_eq)) hnumbered
  -- coordinates are the same, and a rank is a place among the entries, which go together
  refine Except.Twin.mapM htop ?_
  rintro ⟨⟨k, b⟩, i⟩ ⟨⟨j, c⟩, _⟩ ⟨⟨hk, hb⟩, rfl⟩
  dsimp only [spotOf, coordinate]
  rw [hb.position]
  refine (Except.Twin.refl (fun _ => rfl) _).bind ?_
  rintro y _ rfl
  refine (Except.Twin.refl (fun _ => rfl) _).bind ?_
  rintro x _ rfl
  refine (h.twin_rankOf hR hk i hb.id).bind ?_
  rintro rank _ rfl
  exact .ok ⟨hb, rfl, rfl, rfl⟩

/-- The same blocks hang nowhere, and they come in the same order. -/
theorem twin_tops : Except.Twin Eq (List.Forall₂ (Block.Twin R)) w.tops u.tops := by
  refine (h.twin_spots hR).bind fun spots spots' hspots => ?_
  have hsorted := Sorting.rel_sort (fun _ _ _ _ hs hs' => hs.before_eq hs') hspots
  generalize Sorting.sort Spot.before spots = s at hsorted
  generalize Sorting.sort Spot.before spots' = s' at hsorted
  cases hsorted with
  | none => exact .error rfl
  | some hall =>
      refine .ok ?_
      rw [List.forall₂_map_left_iff, List.forall₂_map_right_iff]
      exact hall.imp fun _ _ hs => hs.block

/-! ### Audits -/

theorem targetsOf_twin (hk : Key.Twin R k j) :
    List.Forall₂ (Value.Twin R) (w.targetsOf k) (u.targetsOf j) := by
  have hrel := h.find? hR hk
  unfold targetsOf
  generalize w.find? k = b at hrel
  generalize u.find? j = c at hrel
  cases hrel with
  | none => exact .nil
  | some hbc => exact hbc.targets hR

/-- Searches that begin at names that go together come upon the same, or both upon a cycle. -/
theorem twin_searchFrom (n : Nat) {m m' : Marks} (hm : Marks.Twin R m m') (hk : Key.Twin R k j) :
    Except.Twin (fun e e' => e = .cycle ∧ e' = .cycle) (Marks.Twin R) (w.searchFrom n m k)
      (u.searchFrom n m' j) := by
  induction n generalizing m m' k j with
  | zero => exact .ok hm
  | succ n ih =>
      unfold searchFrom
      rw [hm k j hk]
      split
      · exact .ok hm
      · exact .error ⟨rfl, rfl⟩
      · refine (Except.Twin.foldlM (h.targetsOf_twin hR hk) (fun m m' t t' hm ht => ?_)
          (hm.insert hR hk false)).bind fun m m' hm => .ok (hm.insert hR hk true)
        obtain ⟨i, l, hi, hl, hil⟩ := ht.exists_toKey
        simp only [linkKey, hi, hl]
        exact ih hm hil

theorem twin_search : Except.Twin (fun e e' => e = .cycle ∧ e' = .cycle) (Marks.Twin R)
    (w.entries.foldlM (fun marks e => w.searchFrom (w.size + 1) marks e.1) ∅)
    (u.entries.foldlM (fun marks e => u.searchFrom (u.size + 1) marks e.1) ∅) := by
  rw [h.size_eq]
  refine Except.Twin.foldlM h.entries (fun m m' e f hm hef => ?_) (fun _ _ _ => ?_)
  · exact h.twin_searchFrom hR _ hm hef.1
  · rw [Std.HashMap.getElem?_empty, Std.HashMap.getElem?_empty]

/-- Both have a cycle of links or neither. -/
theorem hasCycle_eq : w.hasCycle = u.hasCycle := by
  have hsearch := h.twin_search hR
  cases hw : w.entries.foldlM (fun marks e => w.searchFrom (w.size + 1) marks e.1) ∅ <;>
    cases hu : u.entries.foldlM (fun marks e => u.searchFrom (u.size + 1) marks e.1) ∅ <;>
    rw [hw, hu] at hsearch <;> cases hsearch
  · rename_i he
    obtain ⟨rfl, rfl⟩ := he
    rw [hasCycle_of_cycle hw, hasCycle_of_cycle hu]
  · rw [hasCycle_of_ok hw, hasCycle_of_ok hu]

theorem twin_auditInput (d : Declaration) (name : Key) {child child' : Value}
    (hchild : Value.Twin R child child') :
    Except.Twin Error.Kin (fun vs vs' => vs.length = vs'.length) (w.auditInput b d name child)
      (u.auditInput c d name child') := by
  unfold auditInput
  refine hchild.toKey.bind fun k j hk => ?_
  have hrel := h.find? hR hk
  generalize w.find? k = p at hrel
  generalize u.find? j = q at hrel
  cases hrel with
  | none => exact .ok rfl
  | some hpq =>
      dsimp only
      split
      · exact .ok rfl
      · rw [h.declarationOf_eq hpq]
        refine (Except.Twin.refl Error.Kin.refl _).bind ?_
        rintro e _ rfl
        refine (Except.Twin.refl Error.Kin.refl _).bind ?_
        rintro fits _ rfl
        split <;> exact .ok rfl

theorem twin_auditNext (hb : b.Twin R c) :
    Except.Twin Error.Kin (fun vs vs' => vs.length = vs'.length) (w.auditNext b)
      (u.auditNext c) := by
  unfold auditNext
  by_cases hnull : b.next = .null
  · rw [if_pos hnull, if_pos (hb.next.eq_null_iff.mp hnull)]
    exact .ok rfl
  · rw [if_neg hnull, if_neg (mt hb.next.eq_null_iff.mpr hnull)]
    refine hb.next.toKey.bind fun k j hk => ?_
    rw [h.contains hR hk]
    split <;> exact .ok rfl

theorem twin_auditBlock (hb : b.Twin R c) :
    Except.Twin Error.Kin (fun vs vs' => vs.length = vs'.length) (w.auditBlock b)
      (u.auditBlock c) := by
  unfold auditBlock
  rw [h.vocabulary, hb.type]
  refine (Except.Twin.refl Error.Kin.refl _).bind ?_
  rintro type _ rfl
  split
  · exact .ok rfl
  · rename_i d _
    refine (Except.Twin.mapM (P := fun vs vs' => vs.length = vs'.length) hb.inputs ?_).bind ?_
    · rintro ⟨name, child⟩ ⟨_, child'⟩ ⟨rfl, hchild⟩
      exact h.twin_auditInput hR d name hchild
    · intro vss vss' hall
      refine (h.twin_auditNext hR hb).bind fun vs vs' hlen => .ok ?_
      rw [List.length_append, List.length_append, length_flatten_of_forall₂ hall, hlen]

/-- As much is wrong with the one as with the other. -/
theorem twin_audit :
    Except.Twin Error.Kin (fun vs vs' => vs.length = vs'.length) w.audit u.audit := by
  unfold audit
  have hblocks : List.Forall₂ (Block.Twin R) w.blocks u.blocks := by
    rw [blocks, blocks, List.forall₂_map_left_iff, List.forall₂_map_right_iff]
    exact h.entries.imp fun _ _ hef => hef.2
  refine (Except.Twin.mapM hblocks fun b c hbc => h.twin_auditBlock hR hbc).bind ?_
  intro vss vss' hall
  rw [h.hasCycle_eq hR]
  refine (Except.Twin.refl Error.Kin.refl _).bind ?_
  rintro cyclic _ rfl
  refine .ok ?_
  rw [List.length_append, List.length_append, length_flatten_of_forall₂ hall]

end Parallel

end Workspace

end Blockwork
