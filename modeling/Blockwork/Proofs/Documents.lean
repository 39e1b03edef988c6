import Blockwork.Archive
import Blockwork.Proofs.Faults
import Blockwork.Proofs.Outlining

/-!
# Documents

In a document that is read from a text no dictionary has a key twice, and a text that is no document
is not readable (`Json.reads_read`).

What holds of faults, and is passed on from what is plugged into a block to the block, holds of all
entries of the outline of a document (`Snapshot.Spreads.outline`).  So no socket is given twice in an
entry (`Snapshot.single_outline`).
-/

namespace Blockwork

/-! ### Parts of values -/

namespace Value

mutual

/-- Whether no dictionary in a value has a key twice. -/
def Keyed : Value → Prop
  | .list vs => KeyedItems vs
  | .dict es => (es.map (·.1)).Nodup ∧ KeyedEntries es
  | .null | .bool _ | .int _ | .float _ | .text _ => True

/-- Whether no dictionary in the items of a list has a key twice. -/
def KeyedItems : List Value → Prop
  | [] => True
  | v :: vs => v.Keyed ∧ KeyedItems vs

/-- Whether no dictionary inside another one has a key twice. -/
def KeyedEntries : List (Key × Value) → Prop
  | [] => True
  | (_, v) :: es => v.Keyed ∧ KeyedEntries es

end

theorem keyedItems_iff {vs : List Value} : KeyedItems vs ↔ ∀ v ∈ vs, v.Keyed := by
  induction vs with
  | nil => simp [KeyedItems]
  | cons v vs ih => rw [KeyedItems, ih, List.forall_mem_cons]

theorem keyedEntries_iff {es : List (Key × Value)} : KeyedEntries es ↔ ∀ e ∈ es, e.2.Keyed := by
  induction es with
  | nil => simp [KeyedEntries]
  | cons e es ih => rw [KeyedEntries, ih, List.forall_mem_cons]

/-- Whether what holds of a value holds of its parts. -/
structure Hereditary (Q : Value → Prop) : Prop where
  item : ∀ {vs v}, Q (.list vs) → v ∈ vs → Q v
  entry : ∀ {es e}, Q (.dict es) → e ∈ es → Q e.2

theorem hereditary_keyed : Hereditary Keyed where
  item h hv := by
    rw [Keyed, keyedItems_iff] at h
    exact h _ hv
  entry h he := by
    rw [Keyed, keyedEntries_iff] at h
    exact h.2 _ he

theorem Hereditary.get? {Q : Value → Prop} (h : Hereditary Q) {es : List (Key × Value)} {k : Key}
    {v : Value} (hes : Q (.dict es)) (hv : Entries.get? es k = some v) : Q v := by
  obtain ⟨j, hj, -⟩ := Entries.exists_mem_of_get? hv
  exact h.entry hes hj

end Value

/-! ### Reading -/

theorem Entries.nodup_put {α β : Type} [BEq α] [EquivBEq α] {es : List (α × β)}
    (h : (es.map (·.1)).Nodup) (k : α) (v : β) : ((put es k v).map (·.1)).Nodup := by
  rw [map_fst_put]
  split
  · exact h
  · rename_i hk
    refine List.nodup_append.mpr ⟨h, List.nodup_singleton k, ?_⟩
    rintro _ hj _ hk' rfl
    obtain rfl := List.mem_singleton.mp hk'
    obtain ⟨e, he, rfl⟩ := List.mem_map.mp hj
    exact hk (List.any_eq_true.mpr ⟨e, he, BEq.rfl⟩)

namespace Json

theorem keyed_putEntry {es : List (Key × Value)} (h : (Value.dict es).Keyed) (k : String)
    {v : Value} (hv : v.Keyed) : (Value.dict (putEntry es k v)).Keyed := by
  rw [Value.Keyed, Value.keyedEntries_iff] at h ⊢
  refine ⟨Entries.nodup_put h.1 _ v, fun e he => ?_⟩
  rcases Entries.mem_put he with he | ⟨i, -, rfl⟩
  · exact h.2 e he
  · exact hv

/-- Whether the failures by which documents are not read are of a kind. -/
structure Errs (bad : Failure → Prop) : Prop where
  malformed : bad .malformedJson
  badValue : bad .badValue
  tooDeep : bad .tooDeep

/-- Whether no dictionary has a key twice in what is read, or reading fails by a failure of a
kind. -/
def Reads (bad : Failure → Prop) : Reading Value → Prop
  | .ok (v, _) => v.Keyed
  | .error f => bad f

variable {bad : Failure → Prop}

theorem failsBy_stringBody (hb : Errs bad) (n : Nat) (acc cs : List Char) :
    FailsBy bad (stringBody n acc cs) := by
  fun_induction stringBody n acc cs with
  | _ => first | exact FailsBy.ok _ | exact FailsBy.error hb.malformed | assumption

theorem reads_number (hb : Errs bad) (negative : Bool) (cs : List Char) :
    Reads bad (number negative cs) := by
  unfold number
  split
  · exact hb.malformed
  · dsimp only
    split
    · split
      · exact hb.badValue
      · trivial
    · trivial

theorem keyed_words : ∀ w ∈ words, w.2.Keyed := by
  simp [words, Value.Keyed]

theorem reads_plain (hb : Errs bad) (cs : List Char) : Reads bad (plain cs) := by
  unfold plain
  split
  · rename_i r hr
    obtain ⟨w, hw, hv⟩ := List.exists_of_findSome?_eq_some hr
    obtain ⟨rest, -, rfl⟩ := Option.map_eq_some_iff.mp hv
    exact keyed_words w hw
  · split
    · exact reads_number hb _ _
    · exact reads_number hb _ _

mutual

theorem reads_value (hb : Errs bad) : ∀ (n depth : Nat) (cs : List Char),
    Reads bad (value n depth cs)
  | 0, _, _ => hb.malformed
  | n + 1, depth, cs => by
    unfold value
    split
    · rename_i rest
      have hfails := failsBy_stringBody hb n [] rest
      cases hs : stringBody n [] rest with
      | error f => exact hfails f hs
      | ok r => trivial
    · split
      · exact hb.tooDeep
      · split
        · trivial
        · exact reads_items hb n _ [] (fun v hv => nomatch hv) _
    · split
      · exact hb.tooDeep
      · split
        · exact ⟨List.nodup_nil, trivial⟩
        · exact reads_members hb n _ [] ⟨List.nodup_nil, trivial⟩ _
    · exact reads_plain hb _

theorem reads_items (hb : Errs bad) : ∀ (n depth : Nat) (acc : List Value),
    (∀ v ∈ acc, v.Keyed) → ∀ cs : List Char, Reads bad (items n depth acc cs)
  | 0, _, _, _, _ => hb.malformed
  | n + 1, depth, acc, hacc, cs => by
    unfold items
    have hvalue := reads_value hb n depth cs
    split
    · rename_i f hf
      exact hf ▸ hvalue
    · rename_i v rest hv
      rw [hv] at hvalue
      have hall : ∀ u ∈ v :: acc, u.Keyed := List.forall_mem_cons.mpr ⟨hvalue, hacc⟩
      split
      · refine Value.keyedItems_iff.mpr fun u hu => ?_
        exact hall u (List.mem_reverse.mp hu)
      · exact reads_items hb n depth _ hall _
      · exact hb.malformed

theorem reads_members (hb : Errs bad) : ∀ (n depth : Nat) (acc : List (Key × Value)),
    (Value.dict acc).Keyed → ∀ cs : List Char, Reads bad (members n depth acc cs)
  | 0, _, _, _, _ => hb.malformed
  | n + 1, depth, acc, hacc, cs => by
    unfold members
    split
    · split
      · rename_i f hf
        exact failsBy_stringBody hb _ _ _ f hf
      · split
        · rename_i cs' _
          have hvalue := reads_value hb n depth (skip cs')
          split
          · rename_i f hf
            exact hf ▸ hvalue
          · rename_i v rest hv
            rw [hv] at hvalue
            have hput (k : String) := keyed_putEntry hacc k hvalue
            split
            · exact hput _
            · exact reads_members hb n depth _ (hput _) _
            · exact hb.malformed
        · exact hb.malformed
    · exact hb.malformed

end

/-- No dictionary has a key twice in what is read from a text, and a text that is no document is not
readable. -/
theorem reads_read (s : String) :
    FailsBy (Archive.isUnreadable · = true) (read s) ∧ ∀ v, read s = .ok v → v.Keyed := by
  have errs : Errs fun f => Archive.isUnreadable (.failure f) = true := ⟨rfl, rfl, rfl⟩
  have hreads := reads_value errs (s.toList.length + 1) depthLimit (skip s.toList)
  unfold read readChars
  generalize value (s.toList.length + 1) depthLimit (skip s.toList) = r at hreads
  rcases r with f | ⟨v, rest⟩
  · exact ⟨FailsBy.error hreads, fun _ h => nomatch h⟩
  · dsimp only
    split
    · rename_i u hu
      split at hu
      · cases hu
        refine ⟨FailsBy.ok _, fun _ h => ?_⟩
        cases h
        exact hreads
      · cases hu
    · rename_i f hf
      split at hf
      · cases hf
      · cases hf
        exact ⟨FailsBy.error errs.malformed, fun _ h => nomatch h⟩

end Json

/-! ### Entries of outlines -/

namespace Snapshot

/-- Whether a property of entries holds of faults, and of what a dictionary describes when it holds
of all that is plugged in, where another property holds of the dictionary and of its parts. -/
structure Spreads (Q : Value → Prop) (R : Entry → Prop) : Prop where
  parts : Value.Hereditary Q
  damage : ∀ d, R (.fault (.damage d))
  coordinate : ∀ v e, Value.toFloat v = .error e → R (.fault e)
  block : ∀ x y es fields inputs, Q (.dict es) → inputsIn es = some inputs →
    (∀ i ∈ inputs, ∀ e ∈ i.2, R e) → R (.block (headOf (.list [.float x, .float y]) es fields) inputs)

namespace Spreads

variable {Q : Value → Prop} {R : Entry → Prop}

mutual

theorem entryOf (hr : Spreads Q R) (x y : Binary64) : ∀ v : Value, Q v →
    R (Snapshot.entryOf (.list [.float x, .float y]) v)
  | .dict es, h => by
    rw [Snapshot.entryOf]
    split
    · rename_i fields inputs _ hinputs
      exact hr.block x y es fields inputs h hinputs
        (inputsIn hr es (fun e he => hr.parts.entry h he) inputs hinputs)
    · exact hr.damage _
  | .null, _ | .bool _, _ | .int _, _ | .float _, _ | .text _, _ | .list _, _ => by
    simp only [Snapshot.entryOf]
    exact hr.damage _

theorem inputsIn (hr : Spreads Q R) : ∀ es : List (Key × Value), (∀ e ∈ es, Q e.2) →
    ∀ inputs, Snapshot.inputsIn es = some inputs → ∀ i ∈ inputs, ∀ e ∈ i.2, R e
  | [], _, inputs, h => by
    rw [Snapshot.inputsIn] at h
    cases h
    exact fun i hi => nomatch hi
  | (k, v) :: es, hes, inputs, h => by
    rw [Snapshot.inputsIn] at h
    rw [List.forall_mem_cons] at hes
    split at h
    · exact inputsOf hr v hes.1 inputs h
    · exact inputsIn hr es hes.2 inputs h

theorem inputsOf (hr : Spreads Q R) : ∀ v : Value, Q v → ∀ inputs,
    Snapshot.inputsOf v = some inputs → ∀ i ∈ inputs, ∀ e ∈ i.2, R e
  | .dict es, hv, inputs, h => by
    rw [Snapshot.inputsOf] at h
    cases h
    exact plugsIn hr es fun e he => hr.parts.entry hv he
  | .null, _, inputs, h | .bool _, _, inputs, h | .int _, _, inputs, h | .float _, _, inputs, h
  | .text _, _, inputs, h | .list _, _, inputs, h => by
    simp only [Snapshot.inputsOf] at h
    split at h
    · cases h
    · cases h
      exact fun i hi => nomatch hi

theorem plugsIn (hr : Spreads Q R) : ∀ es : List (Key × Value), (∀ e ∈ es, Q e.2) →
    ∀ i ∈ Snapshot.plugsIn es, ∀ e ∈ i.2, R e
  | [], _ => by
    rw [Snapshot.plugsIn]
    exact fun i hi => nomatch hi
  | (k, v) :: es, h => by
    rw [List.forall_mem_cons] at h
    rw [Snapshot.plugsIn]
    exact List.forall_mem_append.mpr ⟨plugOf hr k v h.1, plugsIn hr es h.2⟩

theorem plugOf (hr : Spreads Q R) (socket : Key) : ∀ v : Value, Q v →
    ∀ i ∈ Snapshot.plugOf socket v, ∀ e ∈ i.2, R e
  | .dict es, h => by
    rw [Snapshot.plugOf]
    exact List.forall_mem_map.mpr fun e he e' he' =>
      Option.some.inj he' ▸ childIn hr es (fun e he => hr.parts.entry h he) e he
  | .null, _ | .bool _, _ | .int _, _ | .float _, _ | .text _, _ | .list _, _ => by
    simp only [Snapshot.plugOf]
    exact List.forall_mem_singleton.mpr fun e he => nomatch he

theorem childIn (hr : Spreads Q R) : ∀ es : List (Key × Value), (∀ e ∈ es, Q e.2) →
    ∀ e ∈ Snapshot.childIn es, R e
  | [], _ => by
    rw [Snapshot.childIn]
    exact fun e he => nomatch he
  | (k, v) :: es, h => by
    rw [List.forall_mem_cons] at h
    rw [Snapshot.childIn]
    split
    · split
      · exact fun e he => nomatch he
      · exact List.forall_mem_singleton.mpr (entryOf hr _ _ v h.1)
    · exact childIn hr es h.2

end

theorem listed (hr : Spreads Q R) {vs : List Value} (h : ∀ v ∈ vs, Q v) :
    ∀ e ∈ Snapshot.listed vs, R e := by
  fun_induction Snapshot.listed vs with
  | case1 => exact fun e he => nomatch he
  | case2 es rest _ ih | case4 v rest _ ih =>
      rw [List.forall_mem_cons] at h
      exact List.forall_mem_cons.mpr ⟨hr.entryOf _ _ _ h.1, ih h.2⟩
  | case3 es rest _ => exact List.forall_mem_singleton.mpr (hr.damage _)

mutual

theorem linked (hr : Spreads Q R) (id : Value) : ∀ v : Value, Q v →
    ∀ e ∈ Snapshot.linked id v, R e
  | .null, _ => fun e he => nomatch he
  | .dict ls, h => by
    rw [Snapshot.linked]
    exact linkedIn hr id ls fun e he => hr.parts.entry h he
  | .bool _, _ | .int _, _ | .float _, _ | .text _, _ | .list _, _ => by
    simp only [Snapshot.linked]
    exact List.forall_mem_singleton.mpr (hr.damage _)

theorem linkedIn (hr : Spreads Q R) (id : Value) : ∀ ls : List (Key × Value),
    (∀ e ∈ ls, Q e.2) → ∀ e ∈ Snapshot.linkedIn id ls, R e
  | [], _ => by
    rw [Snapshot.linkedIn]
    exact List.forall_mem_singleton.mpr (hr.damage _)
  | (k, v) :: ls, h => by
    rw [Snapshot.linkedIn]
    rw [List.forall_mem_cons] at h
    split
    · exact List.forall_mem_cons.mpr ⟨hr.entryOf _ _ v h.1, after hr v h.1⟩
    · exact linkedIn hr id ls h.2

theorem after (hr : Spreads Q R) : ∀ v : Value, Q v → ∀ e ∈ Snapshot.after v, R e
  | .dict es, h => by
    rw [Snapshot.after]
    exact nextIn hr _ es fun e he => hr.parts.entry h he
  | .null, _ | .bool _, _ | .int _, _ | .float _, _ | .text _, _ | .list _, _ => by
    simp only [Snapshot.after]
    exact fun e he => nomatch he

theorem nextIn (hr : Spreads Q R) (id : Value) : ∀ es : List (Key × Value),
    (∀ e ∈ es, Q e.2) → ∀ e ∈ Snapshot.nextIn id es, R e
  | [], _ => by
    rw [Snapshot.nextIn]
    exact fun e he => nomatch he
  | (k, v) :: es, h => by
    rw [Snapshot.nextIn]
    rw [List.forall_mem_cons] at h
    split
    · exact linked hr id v h.1
    · exact nextIn hr id es h.2

end

theorem following (hr : Spreads Q R) {es : List (Key × Value)} (h : Q (.dict es)) :
    ∀ e ∈ Snapshot.following es, R e := by
  unfold Snapshot.following
  split
  · rename_i vs hvs
    refine hr.listed fun v hv => ?_
    cases hnext : Entries.get? es (.text "next") with
    | none =>
        rw [hnext] at hvs
        cases hvs
    | some link =>
        rw [hnext, Option.getD_some] at hvs
        cases link with
        | dict ls => exact hr.parts.item (hr.parts.get? (hr.parts.get? h hnext) hvs) hv
        | _ => cases hvs
  · exact List.forall_mem_singleton.mpr (hr.damage _)
  · exact hr.after _ h

theorem strandOf (hr : Spreads Q R) {v : Value} (h : Q v) :
    R (Snapshot.strandOf v).top ∧ ∀ e ∈ (Snapshot.strandOf v).following, R e := by
  unfold Snapshot.strandOf
  split
  · extract_lets read
    split
    · exact ⟨hr.entryOf _ _ _ h, hr.following h⟩
    · rename_i e he
      exact ⟨hr.coordinate _ e he, fun e he => nomatch he⟩
    · rename_i e he _
      exact ⟨hr.coordinate _ e he, fun e he => nomatch he⟩
  · exact ⟨hr.damage _, fun e he => nomatch he⟩

/-- What holds of faults, and of the entry of every part of a document, holds of all entries of the
outline. -/
theorem outline (hr : Spreads Q R) {document : Value} (h : Q document) {strands : List Strand}
    (ho : Snapshot.outline document = .ok strands) :
    ∀ s ∈ strands, R s.top ∧ ∀ e ∈ s.following, R e := by
  unfold Snapshot.outline at ho
  split at ho
  · split at ho
    · cases ho
      exact fun s hs => nomatch hs
    · rename_i es state hstate
      split at ho
      · rename_i vs hvs
        dsimp only at ho
        split at ho
        · cases ho
          intro s hs
          obtain ⟨v, hv, rfl⟩ := List.mem_map.mp hs
          refine hr.strandOf ?_
          cases hblocks : Entries.get? state (.text "blocks") with
          | none =>
              rw [hblocks, Option.getD_none] at hvs
              cases hvs
              cases hv
          | some u =>
              rw [hblocks, Option.getD_some] at hvs
              subst hvs
              exact hr.parts.item (hr.parts.get? (hr.parts.get? h hstate) hblocks) hv
        · cases ho
      · cases ho
    · cases ho
  · cases ho

end Spreads

/-! ### Sockets in entries -/

mutual

/-- Whether no socket is given twice in an entry, nor in those inside. -/
def Entry.Single : Entry → Prop
  | .fault _ => True
  | .block _ inputs => (inputs.map (·.1)).Nodup ∧ SingleInputs inputs

/-- Whether no socket is given twice inside what is plugged into a block. -/
def SingleInputs : List (Key × Option Entry) → Prop
  | [] => True
  | (_, e) :: rest => SingleInput e ∧ SingleInputs rest

/-- Whether no socket is given twice inside what is plugged into a socket. -/
def SingleInput : Option Entry → Prop
  | none => True
  | some e => e.Single

end

/-- Whether no socket is given twice in the entries of a chain. -/
def Strand.Single (strand : Strand) : Prop :=
  strand.top.Single ∧ ∀ e ∈ strand.following, e.Single

theorem singleInputs_iff {inputs : List (Key × Option Entry)} :
    SingleInputs inputs ↔ ∀ i ∈ inputs, ∀ e ∈ i.2, e.Single := by
  induction inputs with
  | nil => simp [SingleInputs]
  | cons i inputs ih =>
      obtain ⟨k, e⟩ := i
      rw [SingleInputs, ih, List.forall_mem_cons]
      cases e <;> simp [SingleInput]

/-- At most one block is plugged in by one connection. -/
theorem childIn_eq (es : List (Key × Value)) : childIn es = [] ∨ ∃ e, childIn es = [e] := by
  induction es with
  | nil => exact .inl rfl
  | cons e es ih =>
      rw [childIn]
      split
      · split
        · exact .inl rfl
        · exact .inr ⟨_, rfl⟩
      · exact ih

/-- The sockets of an entry are among the keys, in order. -/
theorem plugsIn_sublist (es : List (Key × Value)) :
    ((plugsIn es).map (·.1)).Sublist (es.map (·.1)) := by
  induction es with
  | nil => exact List.Sublist.refl _
  | cons e es ih =>
      obtain ⟨k, v⟩ := e
      rw [plugsIn, List.map_append, List.map_cons]
      cases v with
      | dict vs =>
          rw [plugOf]
          rcases childIn_eq vs with h | ⟨e, h⟩
          · rw [h]
            exact ih.cons k
          · rw [h]
            exact ih.cons_cons k
      | _ =>
          simp only [plugOf]
          exact ih.cons_cons k

theorem nodup_inputsOf {v : Value} (h : v.Keyed) {inputs : List (Key × Option Entry)}
    (hinputs : inputsOf v = some inputs) : (inputs.map (·.1)).Nodup := by
  cases v with
  | dict es =>
      rw [inputsOf] at hinputs
      cases hinputs
      rw [Value.Keyed] at h
      exact h.1.sublist (plugsIn_sublist es)
  | _ =>
      simp only [inputsOf] at hinputs
      split at hinputs
      · cases hinputs
      · cases hinputs
        exact List.nodup_nil

theorem nodup_inputsIn {es : List (Key × Value)} (h : (Value.dict es).Keyed)
    {inputs : List (Key × Option Entry)} (hinputs : inputsIn es = some inputs) :
    (inputs.map (·.1)).Nodup := by
  rw [inputsIn_eq] at hinputs
  cases hv : Entries.get? es (.text "inputs") with
  | none =>
      rw [hv] at hinputs
      cases hinputs
      exact List.nodup_nil
  | some v =>
      rw [hv] at hinputs
      exact nodup_inputsOf (Value.hereditary_keyed.get? h hv) hinputs

theorem spreads_single : Spreads Value.Keyed Entry.Single where
  parts := Value.hereditary_keyed
  damage _ := trivial
  coordinate _ _ _ := trivial
  block _ _ _ _ _ h hinputs hall := ⟨nodup_inputsIn h hinputs, singleInputs_iff.mpr hall⟩

/-- Where no dictionary has a key twice, no socket is given twice. -/
theorem single_outline {document : Value} (h : document.Keyed) {strands : List Strand}
    (ho : outline document = .ok strands) : ∀ s ∈ strands, s.Single :=
  spreads_single.outline h ho

end Snapshot

end Blockwork
