import Blockwork.Proofs.History

/-!
# What blocks hold

Properties of blocks that have nothing to do with their links.  A property that new blocks have, and
that is kept when a field, the position or the switch of a block is written, is `Persistent`; every
block of every history has it (`History.holds`).

One such property is that a block stems from the declaration of its type (`Block.Stems`): it has the
fields of that, each with its default or with a value that was coerced, a position of two numbers
and the declared colour.
-/

namespace Blockwork

variable {v : Vocabulary} {Q : Block → Prop}

/-! ### Persistent properties -/

/-- Whether a property does not depend on links, and whatever strokes do to a block keeps it. -/
structure Persistent (v : Vocabulary) (Q : Block → Prop) : Prop where
  core : ∀ {b c : Block}, c.core = b.core → Q b → Q c
  created : ∀ {x : String} {type position : Value} {d : Declaration}
    {given fields : List (Key × Value)} {coords : List Value},
    (do v.get (← type.toKey)) = .ok d → Edit.filled type d given = .ok fields →
      Edit.coordinates position = .ok coords → Q (Edit.newBlock x type d fields coords)
  written : ∀ {b : Block} {d : Declaration} {s : Socket} {name value new : Value} {k : Key},
    (do v.get (← b.type.toKey)) = .ok d → d.field? name = some s → name.key? = some k →
      s.coerce value = .ok new → Q b → Q { b with fields := Entries.put b.fields k new }
  moved : ∀ {b : Block} {position : Value} {coords : List Value},
    Edit.coordinates position = .ok coords → Q b → Q { b with position := coords }
  raised : ∀ {b c : Block}, Q b → Q c → Q { c with position := b.position }
  switched : ∀ {b : Block} (enabled : Value), Q b → Q { b with enabled }

namespace Workspace

variable {w w' : Workspace}

/-- Whether all blocks have a property. -/
def Holds (w : Workspace) (Q : Block → Prop) : Prop := ∀ x b, w.block? x = some b → Q b

theorem SameCore.holds (h : SameCore w w') (hq : Persistent v Q) (hw : w.Holds Q) : w'.Holds Q := by
  intro x b hb
  have hcore := h.core? x
  rw [Workspace.core?, hb, Option.map_some, Workspace.core?] at hcore
  obtain ⟨c, hc, he⟩ := Option.map_eq_some_iff.mp hcore.symm
  exact hq.core he.symm (hw x c hc)

theorem Holds.edit (hw : w.Holds Q) {x : String} {f : Block → Block}
    (hf : ∀ b, w.block? x = some b → Q b → Q (f b)) : (w.edit x f).Holds Q := by
  intro y b hb
  rw [block?_edit] at hb
  split at hb
  · rename_i hxy
    subst hxy
    obtain ⟨c, hc, rfl⟩ := Option.map_eq_some_iff.mp hb
    exact hf c hc (hw x c hc)
  · exact hw y b hb

theorem Holds.insert (hw : w.Holds Q) {x : String} {b : Block} (hb : Q b) :
    (w.insert x b).Holds Q := by
  intro y c hc
  rw [block?_insert] at hc
  split at hc
  · exact Option.some.inj hc ▸ hb
  · exact hw y c hc

theorem Holds.discard (hw : w.Holds Q) (xs : List String) : (w.discard xs).Holds Q := by
  intro y b hb
  rw [block?_discard] at hb
  split at hb
  · cases hb
  · exact hw y b hb

theorem Deleted.holds {x : String} {heal : Bool} {xs : List String} (hd : w.Deleted x heal xs w')
    (hq : Persistent v Q) (hw : w.Holds Q) : w'.Holds Q := by
  cases hd with
  | whole _ _ => exact ((sameCore_cut w x).holds hq hw).discard _
  | @healed p n xs =>
      have hcut := (sameCore_cut _ x).holds hq ((sameCore_cut w n).holds hq hw)
      exact (sameCore_bind _ p none n).holds hq (hcut.discard xs)
  | @raised n xs b _ hb =>
      have hcut := (sameCore_cut _ x).holds hq ((sameCore_cut w n).holds hq hw)
      exact (hcut.discard xs).edit fun c _ hc => hq.raised (hw x b hb) hc

theorem Sound.holds_command (h : w.Sound) (hq : Persistent w.vocabulary Q) (hw : w.Holds Q)
    (c : Command) : Ends c.edit w (fun _ w' => w'.Holds Q) fun _ w' => w'.Holds Q := by
  cases c with
  | setField id name value =>
      refine Edit.ends_setField h (fun _ => hw) hw fun x d s k new _ _ hd hs hk hnew => ?_
      obtain ⟨c, hc, hdc⟩ := type?_eq_some.mp hd
      refine hw.edit fun b hb hQ => hq.written ?_ hs hk hnew hQ
      rw [Option.some.inj (hb.symm.trans hc)]
      exact hdc
  | setEnabled id enabled =>
      exact Edit.ends_setEnabled h (fun _ => hw) hw fun _ _ _ =>
        hw.edit fun _ _ hQ => hq.switched enabled hQ
  | move id x y =>
      exact Edit.ends_move h (fun _ => hw) fun _ _ _ _ hp => hw.edit fun _ _ hQ => hq.moved hp hQ
  | connectValue above socket below =>
      exact Edit.ends_connectValue h (fun _ _ => hw)
        fun p s c _ _ _ _ _ => (sameCore_plug w p (some s) c).holds hq hw
  | connectNext above below =>
      exact Edit.ends_connectNext h (fun _ _ => hw) fun _ _ _ _ _ _ _ hf => hf.sameCore.holds hq hw
  | disconnect id =>
      exact Edit.ends_disconnect h (fun _ _ => hw) fun x _ _ => (sameCore_cut w x).holds hq hw
  | delete id heal =>
      exact Edit.ends_delete h (fun _ _ => hw) fun _ _ _ _ hd => hd.holds hq hw
  | beginDrag id => exact Edit.ends_beginDrag (fun _ => hw) fun _ => hw
  | endDrag id => exact Edit.ends_endDrag (fun _ => hw) fun _ => hw

/-- A stroke keeps what is persistent. -/
theorem Sound.holds_stroke (h : w.Sound) (hq : Persistent w.vocabulary Q) (hw : w.Holds Q)
    (hs : Stroke w w') : w'.Holds Q := by
  cases hs with
  | create hid =>
      refine Ends.stateAfter (P := fun w => w.Holds Q)
        (Edit.ends_create hid.isId (fun _ _ => hw) fun d fields coords hc => ?_)
      exact hw.insert (hq.created hc.declared hc.filled hc.placed)
  | command c => exact (h.holds_command hq hw c).stateAfter
  | disable k =>
      intro x b hb
      change (w.table.modify k _).find? (.text x) = some b at hb
      rw [Table.find?_modify] at hb
      split at hb
      · obtain ⟨c, hc, rfl⟩ := Option.map_eq_some_iff.mp hb
        exact hq.switched _ (hw x c hc)
      · exact hw x b hb
  | mute muted => exact hw

theorem Sound.holds_reach (h : w.Sound) (hm : w.Minted) (hq : Persistent w.vocabulary Q) (hw : w.Holds Q)
    (hr : Reach w w') : w'.Holds Q := by
  induction hr with
  | refl => exact hw
  | tail hr hs ih =>
      have hl := h.reach hm hr
      exact hl.sound.holds_stroke (hl.vocabulary.symm ▸ hq) ih hs

end Workspace

/-- The vocabulary of a new workspace: an empty one is replaced. -/
def Vocabulary.orStock (v : Vocabulary) : Vocabulary := (Workspace.new v 0).vocabulary

theorem History.vocabulary {σ : Type} {a : Audience σ} (ha : a.Tame) (hv : v.Worded)
    {w : Workspace} (h : History a v w) : w.vocabulary = v.orStock := by
  induction h with
  | new created => rfl
  | call h hc ih =>
      obtain ⟨hs, hm⟩ := h.grounded ha hv
      exact (hs.reach hm (Call.reaches ha hs hm hc)).vocabulary.trans ih

/-- **Every block of a history has every persistent property.** -/
theorem History.holds {σ : Type} {a : Audience σ} (ha : a.Tame) (hv : v.Worded) {w : Workspace}
    (h : History a v w) (hq : Persistent v.orStock Q) : w.Holds Q := by
  induction h with
  | new created =>
      intro x b hb
      rw [Workspace.block?, Workspace.find?, Table.find?_eq] at hb
      cases hb
  | call h hc ih =>
      obtain ⟨hs, hm⟩ := h.grounded ha hv
      refine hs.holds_reach hm ?_ ih (Call.reaches ha hs hm hc)
      rw [h.vocabulary ha hv]
      exact hq

/-! ### Blocks that stem from a declaration -/

/-- Whether fields are those of a declaration, in order, and each of them holds its default or a
value that was coerced. -/
structure Declaration.Fills (d : Declaration) (fields : List (Key × Value)) : Prop where
  keys : fields.map (·.1) = d.defaults.map (·.1)
  values : ∀ k u, (k, u) ∈ fields → ∃ s ∈ d.fields, s.name.key? = some k ∧
    (u = s.default ∨ ∃ u', s.coerce u' = .ok u)

/-- Whether a block stems from the declaration of its type. -/
structure Block.Stems (v : Vocabulary) (b : Block) (d : Declaration) : Prop where
  declared : (do v.get (← b.type.toKey)) = .ok d
  fills : d.Fills b.fields
  colour : b.colour = .text d.colour.hex
  saved : b.savedColour = .null
  placed : ∃ x y, b.position = [.float x, .float y]

namespace Declaration

variable {d : Declaration} {s : Socket} {fields : List (Key × Value)}

theorem mem_fields_of_field? {name : Value} (h : d.field? name = some s) :
    s ∈ d.fields ∧ s.name.same name = true := by
  obtain ⟨hs, hf⟩ := Option.filter_eq_some_iff.mp h
  have hfind : d.sockets.find? (·.name.same name) = some s := hs
  exact ⟨List.mem_filter.mpr ⟨List.mem_of_find?_eq_some hfind, hf⟩, (List.find?_some hfind :)⟩

theorem mem_defaults {k : Key} (hs : s ∈ d.fields) (hk : s.name.key? = some k) :
    (k, s.default) ∈ d.defaults :=
  List.mem_filterMap.mpr ⟨s, hs, by rw [hk]; rfl⟩

theorem fills_defaults (d : Declaration) : d.Fills d.defaults := by
  refine ⟨rfl, fun k u hu => ?_⟩
  obtain ⟨s, hs, he⟩ := List.mem_filterMap.mp hu
  obtain ⟨j, hj, he⟩ := Option.map_eq_some_iff.mp he
  cases he
  exact ⟨s, hs, hj, .inl rfl⟩

/-- Writing a coerced value into a field leaves the other fields and their order as they are. -/
theorem Fills.put (h : d.Fills fields) {t : String} (hs : s ∈ d.fields) (ht : s.name = .text t)
    {value new : Value} (hnew : s.coerce value = .ok new) :
    d.Fills (Entries.put fields (.text t) new) := by
  have hk : s.name.key? = some (.text t) := by rw [ht]; rfl
  constructor
  · have hany : fields.any (·.1 == Key.text t) = true := by
      have hmem := List.mem_map_of_mem (f := (·.1)) (mem_defaults hs hk)
      rw [← h.keys] at hmem
      obtain ⟨e, he, heq⟩ := List.mem_map.mp hmem
      exact List.any_eq_true.mpr ⟨e, he, by rw [heq]; exact BEq.rfl⟩
    rw [Entries.map_fst_put, if_pos hany, h.keys]
  · intro k u hu
    rcases Entries.mem_put hu with hu | ⟨i, hi, he⟩
    · exact h.values k u hu
    · obtain rfl := Key.beq_text_iff.mp hi
      cases he
      exact ⟨s, hs, hk, .inr ⟨value, hnew⟩⟩

theorem Fills.write (hv : v.Worded) (hd : d ∈ v.declarations) (h : d.Fills fields)
    {name value new : Value} {k : Key} (hs : d.field? name = some s) (hk : name.key? = some k)
    (hnew : s.coerce value = .ok new) : d.Fills (Entries.put fields k new) := by
  obtain ⟨hmem, hsame⟩ := mem_fields_of_field? hs
  obtain ⟨t, ht⟩ := hv d hd s (List.mem_of_mem_filter hmem)
  rw [ht, Value.same_text_left] at hsame
  subst hsame
  obtain rfl := Option.some.inj hk
  exact h.put hmem ht hnew

/-- What holds of the defaults, and is kept when a coerced value is written into a field, holds of
the fields of a new block. -/
theorem filled_induct {P : List (Key × Value) → Prop} {type : Value} {given : List (Key × Value)}
    (h : Edit.filled type d given = .ok fields) (hd : P d.defaults)
    (hw : ∀ {fields s asked name value new}, d.field? asked = some s → asked.key? = some name →
      s.coerce value = .ok new → P fields → P (Entries.put fields name new)) : P fields := by
  unfold Edit.filled at h
  generalize d.defaults = start at h hd
  induction given generalizing start with
  | nil => exact Except.ok.inj h ▸ hd
  | cons e rest ih =>
      obtain ⟨name, value⟩ := e
      rw [List.foldlM_cons] at h
      cases hs : d.field? (.ofKey name) with
      | none => simp only [hs] at h; cases h
      | some s =>
          simp only [hs] at h
          cases hnew : s.coerce value with
          | error e => rw [hnew] at h; cases h
          | ok new =>
              rw [hnew] at h
              exact ih (Entries.put start name new) h (hw hs (by cases name <;> rfl) hnew hd)

theorem fills_filled (hv : v.Worded) (hd : d ∈ v.declarations) {type : Value}
    {given : List (Key × Value)} (h : Edit.filled type d given = .ok fields) : d.Fills fields :=
  filled_induct h d.fills_defaults fun hs hk hnew hf => hf.write hv hd hs hk hnew

end Declaration

theorem Vocabulary.mem_of_lookup {type : Value} {d : Declaration}
    (h : (do v.get (← type.toKey)) = .ok d) : d ∈ v.declarations := by
  cases hk : type.toKey with
  | error e => rw [hk] at h; cases h
  | ok k => rw [hk] at h; exact mem_of_get h

theorem Edit.exists_of_coordinates {position : Value} {coords : List Value}
    (h : coordinates position = .ok coords) : ∃ x y, coords = [.float x, .float y] := by
  unfold coordinates at h
  cases hi : position.item 0 with
  | error e => rw [hi] at h; cases h
  | ok i =>
      rw [hi] at h
      cases hx : i.toFloat with
      | error e => simp only [bind, Except.bind, hx] at h; cases h
      | ok x =>
          cases hj : position.item 1 with
          | error e => simp only [bind, Except.bind, hx, hj] at h; cases h
          | ok j =>
              cases hy : j.toFloat with
              | error e => simp only [bind, Except.bind, hx, hj, hy] at h; cases h
              | ok y =>
                  simp only [bind, Except.bind, hx, hj, hy] at h
                  exact ⟨x, y, (Except.ok.inj h).symm⟩

/-- That blocks stem from declarations is persistent. -/
theorem Vocabulary.Worded.persistent (hv : v.Worded) : Persistent v fun b => ∃ d, b.Stems v d where
  core {b c} hc hb := by
    obtain ⟨d, hd⟩ := hb
    have hfields := congrArg Block.fields hc
    have htype := congrArg Block.type hc
    have hcolour := congrArg Block.colour hc
    have hsaved := congrArg Block.savedColour hc
    have hposition := congrArg Block.position hc
    dsimp only [Block.core] at hfields htype hcolour hsaved hposition
    exact ⟨d, htype ▸ hd.declared, hfields ▸ hd.fills, hcolour ▸ hd.colour, hsaved ▸ hd.saved,
      hposition ▸ hd.placed⟩
  created {x type position d given fields coords} hd hf hp :=
    ⟨d, hd, Declaration.fills_filled hv (Vocabulary.mem_of_lookup hd) hf, rfl, rfl,
      Edit.exists_of_coordinates hp⟩
  written hd hs hk hnew hb := by
    obtain ⟨d', hd'⟩ := hb
    obtain rfl := Except.ok.inj (hd.symm.trans hd'.declared)
    exact ⟨_, hd'.declared, hd'.fills.write hv (Vocabulary.mem_of_lookup hd'.declared) hs hk hnew,
      hd'.colour, hd'.saved, hd'.placed⟩
  moved hp hb := by
    obtain ⟨d, hd⟩ := hb
    exact ⟨d, hd.declared, hd.fills, hd.colour, hd.saved, Edit.exists_of_coordinates hp⟩
  raised hb hc := by
    obtain ⟨d, hd⟩ := hb
    obtain ⟨d', hd'⟩ := hc
    exact ⟨d', hd'.declared, hd'.fills, hd'.colour, hd'.saved, hd.placed⟩
  switched _ hb := by
    obtain ⟨d, hd⟩ := hb
    exact ⟨d, hd.declared, hd.fills, hd.colour, hd.saved, hd.placed⟩

end Blockwork
