import Blockwork.Proofs.Failing
import Blockwork.Proofs.History

/-!
# What every edit keeps

A property of workspaces is `Steady` when it is kept by the changes that all edits are made of: a
block is changed apart from its id, its type, its colours, its fields and its position, a field is
written, a block is moved or takes the place where another one was, a new block is put in, a block is
taken out, and a drag gesture begins or ends.  No edit does more,
on whatever workspace (`Steady.keeps_create`, `Steady.keeps_command`), and neither does what is built
of edits (`Steady.builds`, `Steady.loads`).  A property is `Lasting` when that is so whatever is
written into fields and wherever blocks are moved.

One such property is that every block is found under its own id (`Workspace.Filed`).  Another one is
how often changes are kept from the audience: after every call of a history they are told again
(`History.unmuted`).
-/

namespace Blockwork

/-- Whether a change of a block leaves its id, its type and its colours as they are. -/
def Mild (f : Block → Block) : Prop := ∀ b,
  (f b).id = b.id ∧ (f b).type = b.type ∧ (f b).colour = b.colour ∧
    (f b).savedColour = b.savedColour

/-- Whether a change of a block leaves its fields and its position as they are, too. -/
def Plain (f : Block → Block) : Prop := ∀ b,
  (f b).id = b.id ∧ (f b).type = b.type ∧ (f b).colour = b.colour ∧
    (f b).savedColour = b.savedColour ∧ (f b).fields = b.fields ∧ (f b).position = b.position

theorem Plain.mild {f : Block → Block} (h : Plain f) : Mild f := fun b =>
  let ⟨hid, htype, hcolour, hsaved, _, _⟩ := h b
  ⟨hid, htype, hcolour, hsaved⟩

/-- Whether a block is put into a workspace under a key as one of a declared type, in the colour of
its type. -/
structure Block.Fresh (w : Workspace) (k : Key) (b : Block) : Prop where
  id : b.id = .ofKey k
  declared : ∃ d, w.declarationOf b = .ok d ∧ b.colour = .text d.colour.hex
  saved : b.savedColour = .null

/-- Whether the fields of a block are those of its declaration with values written into them, and its
position is what some value says. -/
structure Block.Filled (w : Workspace) (b : Block) : Prop where
  fields : ∃ d given, w.declarationOf b = .ok d ∧ Edit.filled b.type d given = .ok b.fields
  position : ∃ position, Edit.coordinates position = .ok b.position

/-- Whether `new` is what a field of the block under a key makes of some value. -/
def Workspace.Enters (w : Workspace) (k name : Key) (new : Value) : Prop :=
  ∃ b d s asked value, w.find? k = some b ∧ w.declarationOf b = .ok d ∧ d.field? asked = some s ∧
    asked.key? = some name ∧ s.coerce value = .ok new

/-- Whether the changes that edits are made of keep a property of workspaces. -/
structure Steady (P : Workspace → Prop) : Prop where
  changed : ∀ {w : Workspace} (k : Key) {f : Block → Block}, Plain f → P w →
    P { w with table := w.table.modify k f }
  written : ∀ {w : Workspace} {k name : Key} {new : Value}, w.Enters k name new → P w →
    P { w with table := w.table.modify k fun b => { b with fields := Entries.put b.fields name new } }
  moved : ∀ {w : Workspace} {position : Value} {coords : List Value} (k : Key),
    Edit.coordinates position = .ok coords → P w →
      P { w with table := w.table.modify k fun b => { b with position := coords } }
  raised : ∀ {w w' : Workspace} {j : Key} {b : Block} (k : Key), w.find? j = some b → P w → P w' →
    P { w' with table := w'.table.modify k fun c => { c with position := b.position } }
  added : ∀ {w : Workspace} (k : Key) {b : Block} (n : Nat), b.Fresh w k → b.Filled w → P w →
    P { w with table := w.table.put k b, created := n }
  taken : ∀ {w : Workspace} (k : Key), P w → P { w with table := w.table.erase k }
  dragged : ∀ {w : Workspace} (dragging : Bool), P w → P { w with dragging }

/-- Whether a property of workspaces is kept by such changes, whatever is written into fields and
wherever blocks are moved. -/
structure Lasting (P : Workspace → Prop) : Prop where
  changed : ∀ {w : Workspace} (k : Key) {f : Block → Block}, Mild f → P w →
    P { w with table := w.table.modify k f }
  added : ∀ {w : Workspace} (k : Key) {b : Block} (n : Nat), b.Fresh w k → P w →
    P { w with table := w.table.put k b, created := n }
  taken : ∀ {w : Workspace} (k : Key), P w → P { w with table := w.table.erase k }
  dragged : ∀ {w : Workspace} (dragging : Bool), P w → P { w with dragging }


namespace Steady

variable {P : Workspace → Prop} {α : Type}

/-! ### Parts of edits -/

section

variable {bad : Error → Prop}

theorem behaves_ofExcept {r : Except Error α} (hr : FailsBy bad r) :
    Behaves P bad (Edit.ofExcept r) := fun _ h =>
  Edit.ends_ofExcept (fun _ _ => h) fun e he => ⟨h, hr e he⟩

variable (hb : Edit.Errs bad)

include hb

theorem behaves_refuse (v : Violation) : Behaves P bad (Edit.refuse v : Edit α) :=
  Behaves.throw (hb.violation v)

/-- A check that refuses an edit. -/
theorem behaves_guard {q : Prop} [Decidable q] {v : Violation} {rest : Unit → Edit α}
    (h : Behaves P bad (rest ())) :
    Behaves P bad (if q then (Edit.refuse v : Edit Unit) >>= rest else rest ()) := fun w hw =>
  Edit.ends_guard (fun _ => ⟨hw, hb.violation v⟩) fun _ => h w hw

theorem behaves_require (k : Key) : Behaves P bad (Edit.require k) := fun _ h =>
  Edit.ends_require (fun _ _ => h) fun _ => ⟨h, hb.violation _⟩

theorem behaves_deref (k : Key) : Behaves P bad (Edit.deref k) := by
  refine Behaves.get.bind fun w => ?_
  cases w.find? k with
  | none => exact Behaves.throw hb.missingKey
  | some b => exact Behaves.pure b

theorem behaves_follow (link : Value) : Behaves P bad (Edit.follow link) :=
  (behaves_ofExcept (link.failsBy_toKey hb.toCalculates)).bind fun k =>
    (behaves_deref hb k).bind fun _ => Behaves.pure k

theorem behaves_declarationOf (b : Block) : Behaves P bad (Edit.declarationOf b) :=
  Behaves.get.bind fun w => behaves_ofExcept (w.failsBy_declarationOf hb b)

end

theorem keeps_ofExcept (r : Except Error α) : Keeps P (Edit.ofExcept r) := by
  have h : Behaves P (fun _ => True) (Edit.ofExcept r) := behaves_ofExcept fun _ _ => trivial
  exact h.keeps

theorem keeps_require (k : Key) : Keeps P (Edit.require k) := (behaves_require .any k).keeps

theorem keeps_follow (link : Value) : Keeps P (Edit.follow link) := (behaves_follow .any link).keeps

variable (h : Steady P)

include h

/-! ### Building -/

section

variable {bad : Error → Prop}

theorem behaves_update (k : Key) {f : Block → Block} (hf : Plain f) :
    Behaves P bad (Edit.update k f) := fun _ hw => Ends.modify (h.changed k hf hw)

variable (hb : Edit.Errs bad)

include hb

theorem behaves_create (type id : Value) {position : Value} (fields : List (Key × Value))
    (hp : FailsBy bad (Edit.coordinates position)) :
    Behaves P bad (Edit.create type id position fields) := by
  intro w hw
  have key (v : Value) : Behaves (· = w) bad (Edit.ofExcept v.toKey) :=
    behaves_ofExcept (v.failsBy_toKey hb.toCalculates)
  have claimed : Behaves (· = w) bad (Edit.claimId id) := by
    unfold Edit.claimId
    split
    · exact Behaves.pure none
    · refine (key id).bind fun k => Behaves.get.bind fun w => ?_
      split
      · exact behaves_refuse hb _
      · exact Behaves.pure (some k)
  -- until the block is put in, the workspace is the one in which its type is declared
  have failed {e : Error} {t : Workspace} (h : t = w ∧ bad e) : P t ∧ bad e := ⟨h.1 ▸ hw, h.2⟩
  unfold Edit.create
  refine Ends.bind (Ends.get (Ends.bind (Edit.ends_ofExcept (fun k hk => ?_) fun e he =>
    ⟨hw, type.failsBy_toKey hb.toCalculates e he⟩)))
  refine Ends.bind (Edit.ends_ofExcept (fun d hd => ?_) fun e he =>
    ⟨hw, w.vocabulary.failsBy_get hb k e he⟩)
  refine Ends.bind ((claimed w rfl).mono (fun asked t ht => ?_) fun _ _ => failed)
  subst ht
  rw [Edit.fillFields_eq]
  refine Ends.bind (Edit.ends_ofExcept (fun fields hf => ?_) fun e he =>
    ⟨hw, Edit.failsBy_filled hb _ _ _ e he⟩)
  refine Ends.bind (Edit.ends_ofExcept (fun coords hc => ?_) fun e he => ⟨hw, hp e he⟩)
  have hdeclared : (do t.vocabulary.get (← type.toKey)) = .ok d := by
    rw [hk]
    exact hd
  refine Ends.bind (Ends.get (Ends.bind (Ends.modify (Ends.pure (h.added _ _ ?_ ?_ hw)))))
  · exact ⟨rfl, ⟨d, hdeclared, rfl⟩, rfl⟩
  · exact ⟨⟨d, _, hdeclared, hf⟩, position, hc⟩

theorem behaves_unplug (k : Key) : Behaves P bad (Edit.unplug k) := by
  unfold Edit.unplug
  refine (behaves_deref hb k).bind fun b => ?_
  have loosened : Behaves P bad
      (Edit.update k fun b => { b with parent := .null, parentInput := .null }) :=
    h.behaves_update k fun _ => ⟨rfl, rfl, rfl, rfl, rfl, rfl⟩
  split
  · exact Behaves.pure ()
  · refine (behaves_follow hb _).bind fun above => ?_
    dsimp only
    split
    · exact Behaves.bind (h.behaves_update above fun _ => ⟨rfl, rfl, rfl, rfl, rfl, rfl⟩) fun _ => loosened
    · refine (behaves_deref hb above).bind fun p => ?_
      refine (behaves_ofExcept (Edit.failsBy_dropInput hb _ _)).bind fun inputs => ?_
      exact Behaves.bind (h.behaves_update above fun _ => ⟨rfl, rfl, rfl, rfl, rfl, rfl⟩) fun _ => loosened

theorem behaves_connectValue (above : Key) (socket : Value) (below : Key) :
    Behaves P bad (Edit.connectValue above socket below) := by
  unfold Edit.connectValue
  refine (behaves_require hb above).bind fun parent => (behaves_require hb below).bind fun child => ?_
  refine (behaves_declarationOf hb parent).bind fun d => ?_
  split
  · split
    · rename_i name _
      have bound (ns : List Notice) : Behaves P bad (do
          Edit.unplug below
          Edit.update above fun p => { p with inputs := Entries.put p.inputs name (.ofKey below) }
          Edit.update below fun c => { c with parent := .ofKey above, parentInput := socket }
          return ns) :=
        (h.behaves_unplug hb below).bind fun _ =>
          Behaves.bind (h.behaves_update above fun _ => ⟨rfl, rfl, rfl, rfl, rfl, rfl⟩) fun _ =>
            Behaves.bind (h.behaves_update below fun _ => ⟨rfl, rfl, rfl, rfl, rfl, rfl⟩) fun _ => Behaves.pure ns
      refine (behaves_declarationOf hb child).bind fun e => behaves_guard hb ?_
      refine (behaves_ofExcept (e.failsBy_fits hb _)).bind fun fits => behaves_guard hb ?_
      refine Behaves.get.bind fun w => ?_
      refine (behaves_ofExcept (w.failsBy_hangsFrom hb _ _)).bind fun hangs => behaves_guard hb ?_
      dsimp only
      split
      · exact Behaves.pure []
      · split
        · exact (behaves_follow hb _).bind fun k => (h.behaves_unplug hb k).bind fun _ => bound _
        · exact bound _
    · exact behaves_refuse hb _
  · exact behaves_refuse hb _

theorem behaves_connectNext (above below : Key) :
    Behaves P bad (Edit.connectNext above below) := by
  have bound {rest : Edit (List Notice)} (hr : Behaves P bad rest) : Behaves P bad (do
      Edit.update above fun p => { p with next := .ofKey below }
      Edit.update below fun c => { c with parent := .ofKey above, parentInput := .null }
      rest) :=
    Behaves.bind (h.behaves_update above fun _ => ⟨rfl, rfl, rfl, rfl, rfl, rfl⟩) fun _ =>
      Behaves.bind (h.behaves_update below fun _ => ⟨rfl, rfl, rfl, rfl, rfl, rfl⟩) fun _ => hr
  unfold Edit.connectNext
  refine (behaves_require hb above).bind fun parent => (behaves_require hb below).bind fun child => ?_
  refine (behaves_declarationOf hb parent).bind fun d => behaves_guard hb ?_
  refine (behaves_declarationOf hb child).bind fun e => behaves_guard hb ?_
  refine Behaves.get.bind fun w => ?_
  refine (behaves_ofExcept (w.failsBy_hangsFrom hb _ _)).bind fun hangs => behaves_guard hb ?_
  dsimp only
  split
  · exact Behaves.pure []
  refine (h.behaves_unplug hb below).bind fun _ => (behaves_deref hb above).bind fun p => ?_
  split
  · refine (behaves_follow hb _).bind fun k => (h.behaves_unplug hb k).bind fun _ => bound ?_
    refine Behaves.get.bind fun w => (behaves_ofExcept (w.failsBy_chain hb _)).bind fun chain => ?_
    split
    · refine (behaves_declarationOf hb _).bind fun d => ?_
      split
      · refine (behaves_follow hb _).bind fun moved => ?_
        exact Behaves.bind (h.behaves_update _ fun _ => ⟨rfl, rfl, rfl, rfl, rfl, rfl⟩) fun _ =>
          Behaves.bind (h.behaves_update _ fun _ => ⟨rfl, rfl, rfl, rfl, rfl, rfl⟩) fun _ => Behaves.pure _
      · exact Behaves.pure _
    · exact Behaves.pure _
  · exact bound (Behaves.pure _)

end

theorem keeps_update (k : Key) {f : Block → Block} (hf : Plain f) : Keeps P (Edit.update k f) := by
  have hu : Behaves P (fun _ => True) (Edit.update k f) := h.behaves_update k hf
  exact hu.keeps

theorem keeps_create (type id position : Value) (fields : List (Key × Value)) :
    Keeps P (Edit.create type id position fields) :=
  (h.behaves_create .any type id fields fun _ _ => trivial).keeps

theorem keeps_unplug (k : Key) : Keeps P (Edit.unplug k) := (h.behaves_unplug .any k).keeps

theorem keeps_connectValue (above : Key) (socket : Value) (below : Key) :
    Keeps P (Edit.connectValue above socket below) :=
  (h.behaves_connectValue .any above socket below).keeps

theorem keeps_connectNext (above below : Key) : Keeps P (Edit.connectNext above below) :=
  (h.behaves_connectNext .any above below).keeps

/-! ### Changing -/

theorem keeps_setField (id : Key) (name value : Value) :
    Keeps P (Edit.setField id name value) := by
  intro w hw
  unfold Edit.setField
  refine Ends.bind (Edit.ends_require (fun b hb => ?_) fun _ => hw)
  refine Ends.bind (Ends.bind (Ends.get (Edit.ends_ofExcept (fun d hd => ?_) fun _ _ => hw)))
  split
  · rename_i s k hs hk
    refine Ends.bind (Edit.ends_ofExcept (fun new hnew => ?_) fun _ _ => hw)
    split
    · exact Ends.pure hw
    · refine Ends.bind (Ends.modify (Ends.pure (h.written ?_ hw)))
      exact ⟨b, d, s, name, value, hb, hd, hs, hk, hnew⟩
  · exact Edit.ends_refuse hw

theorem keeps_setEnabled (id : Key) (enabled : Value) : Keeps P (Edit.setEnabled id enabled) := by
  unfold Edit.setEnabled
  refine (keeps_require id).bind fun b => ?_
  split
  · exact Keeps.pure []
  · exact Keeps.bind (h.keeps_update id fun _ => ⟨rfl, rfl, rfl, rfl, rfl, rfl⟩) fun _ => Keeps.pure _

theorem keeps_move (id : Key) (x y : Value) : Keeps P (Edit.move id x y) := by
  unfold Edit.move
  refine (keeps_require id).bind fun b w hw => ?_
  refine Ends.bind (Edit.ends_ofExcept (fun coords hc => ?_) fun _ _ => hw)
  exact Ends.bind (Ends.modify (Ends.pure (h.moved id hc hw)))

theorem keeps_disconnect (id : Key) : Keeps P (Edit.disconnect id) := by
  unfold Edit.disconnect
  refine (keeps_require id).bind fun b => ?_
  split
  · exact Keeps.pure []
  · exact (h.keeps_unplug id).bind fun _ => Keeps.pure _

/-! ### Deleting and dragging -/

theorem keeps_removeAll (ids : List Value) : Keeps P (Edit.removeAll ids) := by
  induction ids with
  | nil => exact Keeps.pure ()
  | cons id ids ih =>
      refine (keeps_follow id).bind fun k => Keeps.bind (fun _ hw => ?_) fun _ => ih
      exact Ends.modify (h.taken k hw)

/-- Where a block was that is put into the place of another one, that one was at some time. -/
theorem keeps_moveUp {v : Workspace} {j : Key} {deleted : Block} (hv : P v)
    (hj : v.find? j = some deleted) : Keeps P (Edit.moveUp deleted) := by
  unfold Edit.moveUp
  refine (keeps_follow _).bind fun following => ?_
  extract_lets place
  have placed (above : Option Key) : Keeps P (place above) := by
    refine Keeps.get.bind fun w => ?_
    split
    · exact Keeps.bind (h.keeps_update _ fun _ => ⟨rfl, rfl, rfl, rfl, rfl, rfl⟩) fun _ =>
        h.keeps_update _ fun _ => ⟨rfl, rfl, rfl, rfl, rfl, rfl⟩
    · exact fun _ hw => Ends.modify (h.raised following hj hv hw)
  split
  · rw [map_eq_pure_bind, bind_assoc]
    exact (keeps_ofExcept _).bind fun k => placed (some k)
  · exact placed none

theorem keeps_delete (id : Key) (heal : Bool) : Keeps P (Edit.delete id heal) := by
  intro v hv
  unfold Edit.delete
  refine Ends.bind (Edit.ends_require (fun b hb => ?_) fun _ => hv)
  dsimp only
  split
  · refine ((keeps_follow _).bind fun k => (h.keeps_unplug k).bind fun _ => ?_) v hv
    refine (h.keeps_unplug id).bind fun _ => Keeps.get.bind fun w => (keeps_ofExcept _).bind ?_
    exact fun bs => (h.keeps_removeAll _).bind fun _ => (h.keeps_moveUp hv hb).bind fun _ =>
      Keeps.pure _
  · refine ((h.keeps_unplug id).bind fun _ => Keeps.get.bind fun w => (keeps_ofExcept _).bind ?_) v hv
    exact fun bs => (h.keeps_removeAll _).bind fun _ => Keeps.pure _

theorem keeps_beginDrag (id : Key) : Keeps P (Edit.beginDrag id) := by
  unfold Edit.beginDrag
  refine (keeps_require id).bind fun b => Keeps.bind (fun _ hw => ?_) fun _ => Keeps.pure _
  exact Ends.modify (h.dragged true hw)

theorem keeps_endDrag (id : Key) : Keeps P (Edit.endDrag id) := by
  unfold Edit.endDrag
  refine (keeps_require id).bind fun b => Keeps.bind (fun _ hw => ?_) fun _ => Keeps.pure _
  exact Ends.modify (h.dragged false hw)

theorem keeps_command (c : Command) : Keeps P c.edit := by
  cases c with
  | setField id name value => exact h.keeps_setField id name value
  | setEnabled id enabled => exact h.keeps_setEnabled id enabled
  | move id x y => exact h.keeps_move id x y
  | connectValue above socket below => exact h.keeps_connectValue above socket below
  | connectNext above below => exact h.keeps_connectNext above below
  | disconnect id => exact h.keeps_disconnect id
  | delete id heal => exact h.keeps_delete id heal
  | beginDrag id => exact h.keeps_beginDrag id
  | endDrag id => exact h.keeps_endDrag id

end Steady

/-! ### Whatever is written, and wherever blocks are moved -/

namespace Lasting

variable {P : Workspace → Prop} (h : Lasting P)

include h

theorem steady : Steady P where
  changed k _ hf := h.changed k hf.mild
  written _ := h.changed _ fun _ => ⟨rfl, rfl, rfl, rfl⟩
  moved k _ := h.changed k fun _ => ⟨rfl, rfl, rfl, rfl⟩
  raised k _ _ := h.changed k fun _ => ⟨rfl, rfl, rfl, rfl⟩
  added k _ n hb _ := h.added k n hb
  taken := h.taken
  dragged := h.dragged

end Lasting

/-! ### Actions made of edits -/

variable {σ : Type} {P : Workspace → Prop}

theorem Act.keeps_edit {α : Type} {e : Edit α} (h : Keeps P e) :
    Keeps (fun s : Scene σ => P s.workspace) (Act.edit e) := fun _ hs => Act.ends_edit (h _ hs)

theorem Steady.builds (h : Steady P) (given : Value → Prop) :
    Snapshot.Builds (fun s : Scene σ => P s.workspace) given where
  create _ _ _ _ _ := Act.keeps_edit (h.keeps_create _ _ _ _)
  disable k := Act.keeps_edit (h.keeps_update k fun _ => ⟨rfl, rfl, rfl, rfl, rfl, rfl⟩)
  connectValue above socket below := Act.keeps_edit (h.keeps_connectValue above socket below)
  connectNext above below := Act.keeps_edit (h.keeps_connectNext above below)

theorem Steady.loads (h : Steady P) {a : Audience σ}
    (hear : ∀ c, Keeps (fun s : Scene σ => P s.workspace) (a.hear c)) :
    Archive.Loads (fun s : Scene σ => P s.workspace) a where
  tell := Act.keeps_tell hear
  delete k := Act.keeps_edit (h.keeps_delete k false)
  host _ _ hs := hs

/-! ### Blocks under their own ids -/

/-- Whether a value is a name of what is under a key. -/
def Value.Names (v : Value) (k : Key) : Prop := ∃ j, v.toKey = .ok j ∧ (j == k) = true

theorem Value.names_ofKey (k : Key) : (ofKey k).Names k := ⟨k, by cases k <;> rfl, BEq.rfl⟩

theorem Value.Names.congr {v : Value} {j k : Key} (h : v.Names j) (e : (j == k) = true) :
    v.Names k := by
  obtain ⟨i, hi, hij⟩ := h
  exact ⟨i, hi, PartialEquivBEq.trans hij e⟩

theorem Value.Names.unique {v : Value} {j k : Key} (h : v.Names j) (h' : v.Names k) :
    (j == k) = true := by
  obtain ⟨i, hi, hij⟩ := h
  obtain ⟨i', hi', hik⟩ := h'
  obtain rfl := Except.ok.inj (hi.symm.trans hi')
  exact PartialEquivBEq.trans (PartialEquivBEq.symm hij) hik

namespace Workspace

/-- Whether each block is found under its own id. -/
def Filed (w : Workspace) : Prop := ∀ k b, w.find? k = some b → b.id.Names k

variable {w : Workspace}

/-- What is found after a change of the block under a key. -/
theorem find?_update {j k : Key} {f : Block → Block} {b : Block}
    (h : (w.table.modify k f).find? j = some b) :
    (k == j) = true ∧ (∃ c, w.find? j = some c ∧ b = f c) ∨
      (k == j) = false ∧ w.find? j = some b := by
  rw [Table.find?_modify] at h
  split at h
  · rename_i hkj
    obtain ⟨c, hc, rfl⟩ := Option.map_eq_some_iff.mp h
    exact .inl ⟨hkj, c, hc, rfl⟩
  · rename_i hkj
    exact .inr ⟨by simpa using hkj, h⟩

theorem find?_update_exists {j k : Key} {f : Block → Block} {b : Block}
    (h : (w.table.modify k f).find? j = some b) : ∃ c, w.find? j = some c ∧ (b = c ∨ b = f c) := by
  obtain ⟨-, c, hc, hb⟩ | ⟨-, hb⟩ := find?_update h
  · exact ⟨c, hc, .inr hb⟩
  · exact ⟨b, hb, .inl rfl⟩

theorem Filed.modify (h : w.Filed) (k : Key) {f : Block → Block} (hf : ∀ b, (f b).id = b.id) :
    Filed { w with table := w.table.modify k f } := by
  intro j b hb
  obtain ⟨c, hc, rfl | rfl⟩ := find?_update_exists hb
  · exact h j _ hc
  · rw [hf]
    exact h j c hc

/-- Edits keep blocks under their own ids. -/
theorem lasting_filed : Lasting Filed where
  changed k _ hf h := h.modify k fun b => (hf b).1
  added {w} k b n hb h j c hc := by
    change (w.table.put k b).find? j = some c at hc
    rw [Table.find?_put] at hc
    split at hc
    · rename_i hkj
      obtain rfl := Option.some.inj hc
      rw [hb.id]
      exact (Value.names_ofKey k).congr hkj
    · exact h j c hc
  taken {w} k h j c hc := by
    change (w.table.erase k).find? j = some c at hc
    rw [Table.find?_erase] at hc
    split at hc
    · cases hc
    · exact h j c hc
  dragged _ h := h

theorem filed_new (v : Vocabulary) (n : Nat) : (Workspace.new v n).Filed := fun k b hb => by
  rw [show (Workspace.new v n).find? k = none from Table.find?_eq _ _] at hb
  cases hb

end Workspace

/-! ### How often changes are kept from the audience -/

theorem steady_muted (muted : Nat) : Steady fun w => w.muted = muted where
  changed _ _ _ h := h
  written _ h := h
  moved _ _ h := h
  raised _ _ _ h := h
  added _ _ _ _ _ h := h
  taken _ h := h
  dragged _ h := h

/-- Whether an audience leaves it as it is how often changes are kept from it. -/
def Audience.Open (a : Audience σ) : Prop :=
  ∀ muted c, Keeps (fun s : Scene σ => s.workspace.muted = muted) (a.hear c)

theorem Audience.open_journal : Audience.journal.Open := fun _ _ _ h => Ends.modify h

theorem Act.keeps_quietly_muted {α : Type} {x : Act σ α} {muted : Nat}
    (h : Keeps (fun s : Scene σ => s.workspace.muted = muted + 1) x) :
    Keeps (fun s : Scene σ => s.workspace.muted = muted) (Act.quietly x) := by
  intro s hs
  refine Ends.bind (Ends.modify (Ends.bind (Act.ends_attempt ?_)))
  have told (t : Scene σ) (ht : t.workspace.muted = muted + 1) : t.workspace.muted - 1 = muted := by
    rw [ht, Nat.add_sub_cancel]
  refine (h _ (congrArg (· + 1) hs)).mono (fun x t ht => ?_) fun e t ht => ?_
  · exact Ends.bind (Ends.modify (Ends.pure (told t ht)))
  · exact Ends.bind (Ends.modify (Ends.throw (told t ht)))

theorem Archive.keeps_muted {a : Audience σ} (ha : a.Open) (archive : Archive) (muted : Nat) :
    Keeps (fun s : Scene σ => s.workspace.muted = muted) (archive.load a) := fun _ hs =>
  ends_load ((steady_muted muted).loads (ha muted)) archive hs fun _ _ =>
    Act.keeps_quietly_muted
      (keeps_replace ((steady_muted _).loads (ha _)) archive ((steady_muted _).builds _))

theorem Call.keeps_muted {a : Audience σ} (ha : a.Open) (c : Call) (muted : Nat) :
    Keeps (fun s : Scene σ => s.workspace.muted = muted) (c.act a) := fun s hs =>
  have h := steady_muted muted
  c.ends_act (h.loads (ha muted)) hs (fun _ _ _ _ _ => Act.keeps_edit (h.keeps_create _ _ _ _))
    (fun d _ => Act.keeps_edit (h.keeps_command d))
    fun archive _ => archive.keeps_muted ha muted s hs

/-- **After every call of a history the audience is told of changes again.** -/
theorem History.unmuted {a : Audience σ} (ha : a.Open) {v : Vocabulary} {w : Workspace}
    (h : History a v w) : w.muted = 0 := by
  induction h with
  | new created => rfl
  | @call s c _ _ ih => exact (c.keeps_muted ha 0).stateAfter ih

end Blockwork
