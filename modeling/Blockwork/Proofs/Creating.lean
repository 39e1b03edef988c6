import Blockwork.Proofs.Blocks
import Blockwork.Proofs.Connecting

/-!
# Creating and changing

What the edits that create a block or change what it holds come to when they begin in a sound
workspace.  The fields of a new block are those of its declaration with values written into them
(`Edit.filled`), which does not depend on the workspace.
-/

namespace Blockwork

namespace Edit

variable {w : Workspace} {bad : Error → Workspace → Prop}

/-! ### Creating -/

/-- The fields of a new block, without a workspace. -/
def filled (type : Value) (d : Declaration) (given : List (Key × Value)) :
    Except Error (List (Key × Value)) :=
  given.foldlM (fun fields (name, v) =>
    match d.field? (.ofKey name) with
    | none => .error (.violation (.noSuchField type (.ofKey name)))
    | some s => Entries.put fields name <$> s.coerce v) d.defaults

theorem fillFields_eq (type : Value) (d : Declaration) (given : List (Key × Value)) :
    fillFields type d given = ofExcept (filled type d given) := by
  unfold fillFields filled
  generalize d.defaults = fields
  induction given generalizing fields with
  | nil => rfl
  | cons e rest ih =>
      obtain ⟨name, v⟩ := e
      simp only [List.foldlM_cons]
      cases d.field? (.ofKey name) with
      | none => rfl
      | some s =>
          cases hs : s.coerce v with
          | error e => simp only [hs]; rfl
          | ok u =>
              simp only [hs]
              exact ih (Entries.put fields name u)

/-- The block that an edit creates. -/
def newBlock (x : String) (type : Value) (d : Declaration) (fields : List (Key × Value))
    (position : List Value) : Block :=
  { id := .text x, type, fields, position, colour := .text d.colour.hex }

/-- The name of a new block: the one asked for, or the next one to be given. -/
def nameOf (w : Workspace) (id : Value) : String := id.text?.getD (Workspace.mint (w.created + 1))

/-- What it takes to create a block: its type is declared, its fields and its position are in order,
and its name is not in use. -/
structure Creates (w : Workspace) (type id position : Value) (given : List (Key × Value))
    (d : Declaration) (fields : List (Key × Value)) (coords : List Value) : Prop where
  declared : (do w.vocabulary.get (← type.toKey)) = .ok d
  filled : Edit.filled type d given = .ok fields
  placed : coordinates position = .ok coords
  unused : id = .null ∨ w.block? (nameOf w id) = none

theorem ends_claimId {id : Value} (hid : Workspace.IsId id) {good : Option Key → Workspace → Prop}
    (hb : ∀ e, ¬ (id = .null ∨ w.block? (nameOf w id) = none) → bad e w)
    (hg : ∀ k : Option Key, (id = .null ∨ w.block? (nameOf w id) = none) →
      k.getD (.text (Workspace.mint (w.created + 1))) = .text (nameOf w id) → good k w) :
    Ends (claimId id) w good bad := by
  unfold claimId
  rcases hid with rfl | ⟨x, rfl⟩
  · exact Ends.pure (hg none (.inl rfl) rfl)
  · rw [if_neg Value.noConfusion]
    refine Ends.bind (ends_ofExcept_ok rfl (Ends.bind (Ends.get ?_)))
    split
    · rename_i hc
      refine ends_refuse (hb _ ?_)
      rintro (h | h)
      · cases h
      · change (w.block? x).isSome = true at hc
        rw [show w.block? x = none from h] at hc
        cases hc
    · rename_i hc
      exact Ends.pure (hg (some (.text x)) (.inr (Option.not_isSome_iff_eq_none.mp hc)) rfl)

/-- A block is created just when it can be. -/
theorem ends_create {type id position : Value} {given : List (Key × Value)}
    (hid : Workspace.IsId id) {good : Key × List Notice → Workspace → Prop}
    (hb : ∀ e, (∀ d fields coords, ¬ Creates w type id position given d fields coords) → bad e w)
    (hg : ∀ d fields coords, Creates w type id position given d fields coords →
      good (.text (nameOf w id), [notice .create (.text (nameOf w id)) [("block_type", type)]])
        (w.insert (nameOf w id) (newBlock (nameOf w id) type d fields coords))) :
    Ends (create type id position given) w good bad := by
  unfold create
  refine Ends.bind (Ends.get (Ends.bind (ends_ofExcept (fun key hk => ?_) fun e he => ?_)))
  swap
  · refine hb e fun d fields coords h => ?_
    have := h.declared
    rw [he] at this
    cases this
  refine Ends.bind (ends_ofExcept (fun d hd => ?_) fun e he => ?_)
  swap
  · refine hb e fun d fields coords h => ?_
    have := h.declared
    rw [hk] at this
    exact nomatch he.symm.trans this
  have declared : (do w.vocabulary.get (← type.toKey)) = .ok d := by
    rw [hk]
    exact hd
  refine Ends.bind (ends_claimId hid (fun e hu => hb e fun d fields coords h => hu h.unused) ?_)
  intro asked unused hasked
  rw [fillFields_eq]
  refine Ends.bind (ends_ofExcept (fun fields hf => ?_) fun e he => ?_)
  swap
  · refine hb e fun d' fields coords h => ?_
    obtain rfl := Except.ok.inj (declared.symm.trans h.declared)
    exact nomatch he.symm.trans h.filled
  refine Ends.bind (ends_ofExcept (fun coords hc => ?_) fun e he => ?_)
  swap
  · exact hb e fun d' fields coords h => nomatch he.symm.trans h.placed
  refine Ends.bind (Ends.get (Ends.bind (Ends.modify ?_)))
  have := hg d fields coords ⟨declared, hf, hc, unused⟩
  have name : asked.getD (.text ("auto-" ++ Decimal.integer (w.created + 1 : Nat))) =
      .text (nameOf w id) := hasked
  rw [name]
  exact Ends.pure this

/-! ### Changing -/

variable {id : Key} {good : List Notice → Workspace → Prop}

/-- A value is written into a field just when there is the field and it takes the value. -/
theorem ends_setField (h : w.Sound) {name value : Value}
    (hb : ∀ e, bad e w) (same : good [] w)
    (hg : ∀ x d s k new ns, id = .text x → w.type? x = some d → d.field? name = some s →
      name.key? = some k → s.coerce value = .ok new →
      good ns (w.edit x fun b => { b with fields := Entries.put b.fields k new })) :
    Ends (setField id name value) w good bad := by
  unfold setField
  refine Ends.bind (ends_require (fun b hf => ?_) fun _ => hb _)
  obtain ⟨x, rfl, hx⟩ := h.key_text hf
  obtain ⟨d, hd, hdb⟩ := h.exists_type hx
  refine Ends.bind (ends_declarationOf_ok hdb ?_)
  split
  · rename_i s k hs hk
    refine Ends.bind (ends_ofExcept (fun new hnew => ?_) fun e _ => hb e)
    split
    · exact Ends.pure same
    · exact Ends.bind (ends_update (Ends.pure (hg x d s k new _ rfl hd hs hk hnew)))
  · exact ends_refuse (hb _)

theorem ends_setEnabled (h : w.Sound) {enabled : Value} (hb : ∀ e, bad e w) (same : good [] w)
    (hg : ∀ x ns, id = .text x → good ns (w.edit x fun b => { b with enabled })) :
    Ends (setEnabled id enabled) w good bad := by
  unfold setEnabled
  refine Ends.bind (ends_require (fun b hf => ?_) fun _ => hb _)
  obtain ⟨x, rfl, hx⟩ := h.key_text hf
  split
  · exact Ends.pure same
  · exact Ends.bind (ends_update (Ends.pure (hg x _ rfl)))

theorem ends_move (h : w.Sound) {x y : Value} (hb : ∀ e, bad e w)
    (hg : ∀ a position ns, id = .text a → coordinates (.list [x, y]) = .ok position →
      good ns (w.edit a fun b => { b with position })) :
    Ends (move id x y) w good bad := by
  unfold move
  refine Ends.bind (ends_require (fun b hf => ?_) fun _ => hb _)
  obtain ⟨a, rfl, ha⟩ := h.key_text hf
  refine Ends.bind (ends_ofExcept (fun position hp => ?_) fun e _ => hb e)
  exact Ends.bind (ends_update (Ends.pure (hg a position _ rfl hp)))

/-! ### Dragging -/

theorem ends_beginDrag (hb : ∀ e, bad e w) (hg : ∀ ns, good ns { w with dragging := true }) :
    Ends (beginDrag id) w good bad := by
  unfold beginDrag
  refine Ends.bind (ends_require (fun b _ => ?_) fun _ => hb _)
  exact Ends.bind (Ends.modify (Ends.pure (hg _)))

theorem ends_endDrag (hb : ∀ e, bad e w) (hg : ∀ ns, good ns { w with dragging := false }) :
    Ends (endDrag id) w good bad := by
  unfold endDrag
  refine Ends.bind (ends_require (fun b _ => ?_) fun _ => hb _)
  exact Ends.bind (Ends.modify (Ends.pure (hg _)))

end Edit

end Blockwork
