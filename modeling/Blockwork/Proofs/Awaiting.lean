import Blockwork.Proofs.Highlighting
import Blockwork.Session.Desk

/-!
# Waits in statements

In a plain program that is prepared for highlighting, a step to come that restores a block belongs
to the statement of that block.  So when a cycle waits, the block that its steps to come restore
first is the one in whose statement it waits (`Fragment.exists_awaiting`).
-/

namespace Blockwork

namespace Op

variable {ops rest : List Op}

theorem mark_append (h : ∀ op ∈ ops, op.isPlain = true) : mark (ops ++ rest) = mark rest := by
  induction ops with
  | nil => rfl
  | cons op ops ih =>
      rw [List.forall_mem_cons] at h
      rw [List.cons_append, mark_cons_of_isPlain h.1, ih h.2]

theorem paired_append (h : ∀ op ∈ ops, op.isPlain = true) :
    Paired (ops ++ rest) ↔ Paired rest := by
  induction ops with
  | nil => exact Iff.rfl
  | cons op ops ih =>
      rw [List.forall_mem_cons] at h
      rw [List.cons_append, paired_cons_of_isPlain h.1, ih h.2]

end Op

namespace Fragment

/-- Whether the steps of a fragment are plain. -/
def Plain (f : Fragment) : Prop := ∀ op ∈ f.ops, op.isPlain = true

theorem instrument_ops (f : Fragment) : f.instrument.ops =
    if f.isStatement then .highlight f.block :: f.ops ++ [.restore f.block] else f.ops := by
  unfold instrument
  split <;> rfl

theorem instrument_block (f : Fragment) : f.instrument.block = f.block := by
  unfold instrument
  split <;> rfl

theorem instrument_isStatement (f : Fragment) : f.instrument.isStatement = f.isStatement := by
  unfold instrument
  split <;> rfl

/-- The steps of fragments that are prepared for highlighting. -/
def opsOf (fs : List Fragment) : List Op := (fs.map instrument).flatMap (·.ops)

theorem opsOf_cons (f : Fragment) (fs : List Fragment) :
    opsOf (f :: fs) = f.instrument.ops ++ opsOf fs := by
  rw [opsOf, List.map_cons, List.flatMap_cons, opsOf]

/-- Before and after all steps no block is highlighted, and each block that is highlighted is
restored. -/
theorem mark_opsOf {fs : List Fragment} (h : ∀ f ∈ fs, f.Plain) :
    Op.mark (opsOf fs) = none ∧ Op.Paired (opsOf fs) := by
  induction fs with
  | nil => exact ⟨rfl, trivial⟩
  | cons f fs ih =>
      rw [List.forall_mem_cons] at h
      obtain ⟨hmark, hpaired⟩ := ih h.2
      rw [opsOf_cons, instrument_ops]
      split
      · rw [List.cons_append, List.cons_append, List.append_assoc, List.singleton_append]
        refine ⟨rfl, ?_, ?_⟩
        · rw [Op.mark_append h.1]
          rfl
        · rw [Op.paired_append h.1]
          exact ⟨hmark, hpaired⟩
      · exact ⟨(Op.mark_append h.1).trans hmark, (Op.paired_append h.1).mpr hpaired⟩

end Fragment

/-- Whether a cycle waits, or has waited last, in the statement of a block. -/
def Cycle.AwaitsIn (c : Cycle) (f : Fragment) : Prop :=
  f.isStatement = true ∧ ∃ before after ran seconds left,
    c.program.fragments = before ++ f :: after ∧
    f.ops = .highlight f.block :: ran ++ .sleep seconds :: left ++ [.restore f.block] ∧
    c.pending = left ++ .restore f.block :: after.flatMap (·.ops)

namespace Fragment

/-- A plain step within those of a statement, taken apart. -/
theorem exists_left {f : Fragment} {ran left : List Op} {op : Op} (ho : op.isPlain = true)
    (h : Op.highlight f.block :: f.ops ++ [.restore f.block] = ran ++ op :: left) :
    ∃ ran' left', ran = .highlight f.block :: ran' ∧ left = left' ++ [.restore f.block] ∧
      f.ops = ran' ++ op :: left' := by
  cases ran with
  | nil =>
      obtain ⟨rfl, -⟩ := List.cons.inj h
      cases ho
  | cons op' ran =>
      obtain ⟨rfl, h⟩ := List.cons.inj h
      obtain rfl | ⟨left', last, rfl⟩ := List.eq_nil_or_concat left
      · obtain rfl := List.singleton_inj.mp (List.append_inj_right' h rfl)
        cases ho
      · rw [List.concat_eq_append, ← List.cons_append, ← List.append_assoc] at h
        refine ⟨ran, left', rfl, ?_, (List.cons.inj (List.append_inj_left' h rfl)).2⟩
        rw [List.concat_eq_append, List.append_inj_right' h rfl]

/-- The block that the steps after a wait restore first is that of the statement of the wait. -/
theorem exists_awaiting {fs : List Fragment} (h : ∀ f ∈ fs, f.Plain) {ran pending : List Op}
    {seconds : Expr} (hops : opsOf fs = ran ++ .sleep seconds :: pending) {id : Value}
    (hid : Op.mark pending = some id) : ∃ before f after ran left,
      fs.map instrument = before ++ f :: after ∧ f.isStatement = true ∧ f.block = id ∧
      f.ops = .highlight f.block :: ran ++ .sleep seconds :: left ++ [.restore f.block] ∧
      pending = left ++ .restore f.block :: after.flatMap (·.ops) := by
  induction fs generalizing ran with
  | nil => simp [opsOf] at hops
  | cons f fs ih =>
      rw [List.forall_mem_cons] at h
      -- the wait is one of the fragments that follow
      have later {ran : List Op} (hops : opsOf fs = ran ++ .sleep seconds :: pending) :
          ∃ before g after ran left,
            (f :: fs).map instrument = before ++ g :: after ∧ g.isStatement = true ∧
            g.block = id ∧
            g.ops = .highlight g.block :: ran ++ .sleep seconds :: left ++ [.restore g.block] ∧
            pending = left ++ .restore g.block :: after.flatMap (·.ops) := by
        obtain ⟨before, g, after, ran', left, hfs, hg⟩ := ih h.2 hops
        refine ⟨f.instrument :: before, g, after, ran', left, ?_, hg⟩
        rw [List.map_cons, hfs, List.cons_append]
      rw [opsOf_cons] at hops
      obtain ⟨ran', rfl, hrest⟩ | ⟨left, hf, hrest⟩ := List.append_eq_append_iff.mp hops
      · exact later hrest
      · cases left with
        | nil => exact @later [] hrest.symm
        | cons op left =>
            rw [List.cons_append, List.cons.injEq] at hrest
            obtain ⟨rfl, rfl⟩ := hrest
            cases hs : f.isStatement with
            | true =>
                have hi := instrument_ops f
                rw [if_pos hs] at hi
                obtain ⟨ran', left, rfl, rfl, hown⟩ := exists_left rfl (hi.symm.trans hf)
                have hplain : ∀ op ∈ left, op.isPlain = true := fun op hop =>
                  h.1 op (hown ▸ List.mem_append_right _ (List.mem_cons_of_mem _ hop))
                have hb := instrument_block f
                have hblock : f.block = id := by
                  rw [List.append_assoc, Op.mark_append hplain] at hid
                  exact Option.some.inj hid
                refine ⟨[], f.instrument, fs.map instrument, ran', left, rfl, ?_, ?_, ?_, ?_⟩
                · rw [instrument_isStatement, hs]
                · rw [hb, hblock]
                · rw [hf, hb]
                  simp
                · rw [hb]
                  simp [opsOf]
            | false =>
                rw [instrument_ops, if_neg (by simp [hs])] at hf
                have hplain : ∀ op ∈ left, op.isPlain = true := fun op hop =>
                  h.1 op (hf ▸ List.mem_append_right _ (List.mem_cons_of_mem _ hop))
                rw [Op.mark_append hplain, (mark_opsOf h.2).1] at hid
                cases hid

end Fragment

end Blockwork
