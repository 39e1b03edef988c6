import Blockwork.Proofs.Creating
import Blockwork.Proofs.Deleting
import Blockwork.Proofs.Rebuilding

/-!
# Histories

How a workspace comes about.  A `Stroke` is what one edit does to it, also when the edit fails, and
a workspace is within `Reach` of another one when it comes of strokes.  Whatever is called on a
scene, and whatever an audience answers with calls of its own, comes of strokes
(`Call.reaches`); and every stroke leaves a sound workspace sound (`Sound.stroke`).  So the
workspaces of every `History` are sound (`History.sound`).
-/

namespace Blockwork

open Relation (ReflTransGen)

variable {σ : Type}

/-! ### Calls -/

/-- A change of blocks that are there. -/
inductive Command where
  | setField (id : Key) (name value : Value)
  | setEnabled (id : Key) (enabled : Value)
  | move (id : Key) (x y : Value)
  | connectValue (above : Key) (socket : Value) (below : Key)
  | connectNext (above below : Key)
  | disconnect (id : Key)
  | delete (id : Key) (heal : Bool)
  | beginDrag (id : Key)
  | endDrag (id : Key)

/-- The edit that a command asks for. -/
def Command.edit : Command → Edit (List Notice)
  | .setField id name value => Edit.setField id name value
  | .setEnabled id enabled => Edit.setEnabled id enabled
  | .move id x y => Edit.move id x y
  | .connectValue above socket below => Edit.connectValue above socket below
  | .connectNext above below => Edit.connectNext above below
  | .disconnect id => Edit.disconnect id
  | .delete id heal => Edit.delete id heal
  | .beginDrag id => Edit.beginDrag id
  | .endDrag id => Edit.endDrag id

/-- What can be asked of a workspace. -/
inductive Call where
  | create (type id position : Value) (fields : List (Key × Value))
  | command (c : Command)
  | clear
  | load (archive : Archive)

/-- What a call does. -/
def Call.act (a : Audience σ) : Call → Act σ Unit
  | .create type id position fields => do let _ ← Act.create a type id position fields
  | .command c => Act.perform a c.edit
  | .clear => Act.clear a
  | .load archive => do let _ ← archive.load a

/-- The scene after a call, whether it fails or not. -/
def Call.after (a : Audience σ) (c : Call) (s : Scene σ) : Scene σ := stateAfter (c.act a) s

/-- A call keeps what its edits, what is told of them and the load of its archive keep. -/
theorem Call.ends_act {a : Audience σ} {P : Scene σ → Prop} (h : Archive.Loads P a)
    {s : Scene σ} (hs : P s) (c : Call)
    (create : ∀ type id position fields, c = .create type id position fields →
      Keeps P (Act.edit (Edit.create type id position fields)))
    (command : ∀ d, c = .command d → Keeps P (Act.edit d.edit))
    (load : ∀ archive, c = .load archive →
      Ends (archive.load a) s (fun _ t => P t) fun _ t => P t) :
    Ends (c.act a) s (fun _ t => P t) fun _ t => P t := by
  cases c with
  | create type id position fields =>
      exact ((Act.keeps_create h.tell (create _ _ _ _ rfl)).bind fun _ => Keeps.pure ()) s hs
  | command d => exact Act.keeps_perform h.tell (command d rfl) s hs
  | clear => exact Act.keeps_clear h.tell h.delete s hs
  | load archive =>
      exact Ends.bind ((load archive rfl).mono (fun _ _ ht => Ends.pure ht) fun _ _ ht => ht)

/-- Whether the ids that a call gives to blocks may be given: those of the block to be created, and
those in the text that would be loaded. -/
def Call.Admissible (s : Scene σ) : Call → Prop
  | .create _ id _ _ => s.workspace.Admits id
  | .command _ => True
  | .clear => True
  | .load archive =>
    ∀ text, archive.Stored s.host text → ∀ id, Archive.Gives text id → s.workspace.Admits id

/-! ### Strokes -/

/-- What one edit does to a workspace, whether it fails or not. -/
inductive Stroke : Workspace → Workspace → Prop where
  | create {w : Workspace} {type id position : Value} {fields : List (Key × Value)} :
      w.Admits id → Stroke w (stateAfter (Edit.create type id position fields) w)
  | command {w : Workspace} (c : Command) : Stroke w (stateAfter c.edit w)
  | disable {w : Workspace} (k : Key) :
      Stroke w (stateAfter (Edit.update k fun b => { b with enabled := .bool false }) w)
  | mute {w : Workspace} (muted : Nat) : Stroke w { w with muted }

/-- Whether a workspace comes of another one by strokes. -/
def Reach : Workspace → Workspace → Prop := ReflTransGen Stroke

namespace Workspace

/-- Whether a workspace is sound, and no earlier than another one of the same vocabulary. -/
structure Later (w w' : Workspace) : Prop where
  sound : w'.Sound
  vocabulary : w'.vocabulary = w.vocabulary
  created : w.created ≤ w'.created
  minted : w.Minted → w'.Minted

variable {w w' : Workspace}

theorem Sound.later (h : w.Sound) : w.Later w := ⟨h, rfl, Nat.le_refl _, fun hm => hm⟩

theorem Later.trans {w'' : Workspace} (h : w.Later w') (k : w'.Later w'') : w.Later w'' :=
  ⟨k.sound, k.vocabulary.trans h.vocabulary, Nat.le_trans h.created k.created,
    fun hm => k.minted (h.minted hm)⟩

theorem SameCore.later (h : SameCore w w') (hs : w'.Sound) : w.Later w' :=
  ⟨hs, h.vocabulary, Nat.le_of_eq h.created.symm, h.minted⟩

theorem Harmless.later (h : w.Sound) {f : Block → Block} (hf : Harmless f) (x : String) :
    w.Later (w.edit x f) := ⟨h.edit hf x, rfl, Nat.le_refl _, fun hm => hm.edit x f⟩

/-- A command leaves a sound workspace sound. -/
theorem Sound.command (h : w.Sound) (c : Command) :
    Ends c.edit w (fun _ w' => w.Later w') fun _ w' => w.Later w' := by
  cases c with
  | setField id name value =>
      exact Edit.ends_setField h (fun _ => h.later) h.later
        fun x _ _ _ _ _ _ _ _ _ _ => Harmless.later h (harmless_fields _) x
  | setEnabled id enabled =>
      exact Edit.ends_setEnabled h (fun _ => h.later) h.later
        fun x _ _ => Harmless.later h (harmless_enabled _) x
  | move id x y =>
      exact Edit.ends_move h (fun _ => h.later)
        fun a _ _ _ _ => Harmless.later h (harmless_position _) a
  | connectValue above socket below =>
      exact Edit.ends_connectValue h (fun _ _ => h.later)
        fun p s c _ _ _ _ hc => (sameCore_plug w p (some s) c).later (h.plug hc)
  | connectNext above below =>
      exact Edit.ends_connectNext h (fun _ _ => h.later)
        fun _ _ _ _ _ _ hc hf => hf.sameCore.later (h.follows hc hf)
  | disconnect id =>
      exact Edit.ends_disconnect h (fun _ _ => h.later)
        fun x _ _ => (sameCore_cut w x).later (h.cut x)
  | delete id heal =>
      exact Edit.ends_delete h (fun _ _ => h.later)
        fun _ _ _ _ hd => ⟨h.deleted hd, hd.vocabulary, Nat.le_of_eq hd.created.symm, hd.minted⟩
  | beginDrag id =>
      exact Edit.ends_beginDrag (fun _ => h.later)
        fun _ => ⟨h.gesture true w.muted, rfl, Nat.le_refl _, fun hm => hm⟩
  | endDrag id =>
      exact Edit.ends_endDrag (fun _ => h.later)
        fun _ => ⟨h.gesture false w.muted, rfl, Nat.le_refl _, fun hm => hm⟩

section

variable {type id position : Value} {given fields : List (Key × Value)} {d : Declaration}
  {coords : List Value}

/-- The name of a block that is created is not in use. -/
theorem Minted.new (hm : w.Minted) (hc : Edit.Creates w type id position given d fields coords) :
    w.block? (Edit.nameOf w id) = none := by
  rcases hc.unused with rfl | hnone
  · exact hm _ (Nat.lt_succ_self _)
  · exact hnone

/-- A block is created under an id that may be given. -/
theorem Sound.later_insert (h : w.Sound) (hm : w.Minted) (hid : w.Admits id)
    (hc : Edit.Creates w type id position given d fields coords) :
    w.Later (w.insert (Edit.nameOf w id)
      (Edit.newBlock (Edit.nameOf w id) type d fields coords)) := by
  obtain ⟨hne, hlate⟩ : Edit.nameOf w id ≠ "" ∧
      ∀ n, w.created + 1 < n → Edit.nameOf w id ≠ mint n := by
    rcases hid with rfl | ⟨x, rfl, hne, hx⟩
    · exact ⟨mint_ne_empty _, fun n hn e => Nat.ne_of_lt hn (mint_injective e)⟩
    · exact ⟨hne, fun n hn => hx n (by omega)⟩
  exact ⟨h.insert (hm.new hc) rfl hne rfl hc.declared, rfl, Nat.le_succ _,
    fun hm => hm.insert hlate _⟩

/-- So does the creation of a block under an id that may be given. -/
theorem Sound.create (h : w.Sound) (hm : w.Minted) (hid : w.Admits id) :
    Ends (Edit.create type id position fields) w (fun _ w' => w.Later w')
      fun _ w' => w.Later w' :=
  Edit.ends_create hid.isId (fun _ _ => h.later) fun _ _ _ hc => h.later_insert hm hid hc

end

/-- **Every stroke leaves a sound workspace sound.** -/
theorem Sound.stroke (h : w.Sound) (hm : w.Minted) (hs : Stroke w w') : w.Later w' := by
  cases hs with
  | create hid => exact (h.create hm hid).stateAfter
  | command c => exact (h.command c).stateAfter
  | disable k =>
      cases hk : w.find? k with
      | none =>
          have : w.table.modify k (fun b => { b with enabled := .bool false }) = w.table := by
            unfold Table.modify
            rw [show w.table.find? k = none from hk]
          change w.Later { w with table := w.table.modify k _ }
          rw [this]
          exact h.later
      | some b =>
          obtain ⟨x, rfl, -⟩ := h.key_text hk
          exact Harmless.later h (harmless_enabled _) x
  | mute muted => exact ⟨h.gesture w.dragging muted, rfl, Nat.le_refl _, fun hm => hm⟩

theorem Sound.reach (h : w.Sound) (hm : w.Minted) (hr : Reach w w') : w.Later w' := by
  induction hr with
  | refl => exact h.later
  | tail _ hs ih => exact ih.trans (ih.sound.stroke (ih.minted hm) hs)

end Workspace

/-! ### Calls come of strokes -/

/-- Whether what an audience does to a workspace comes of strokes. -/
def Audience.Tame (a : Audience σ) : Prop :=
  ∀ c s, Reach s.workspace (stateAfter (a.hear c) s).workspace

theorem Audience.tame_journal : Audience.journal.Tame := fun _ _ => .refl

section

variable {a : Audience σ} {w : Workspace}

theorem keeps_reach {α : Type} {e : Edit α}
    (h : ∀ w', Reach w w' → Stroke w' (stateAfter e w')) :
    Keeps (fun s : Scene σ => Reach w s.workspace) (Act.edit e) := fun _ hs =>
  Act.ends_edit (Ends.of_stateAfter (P := Reach w) (hs.tail (h _ hs)))

theorem keeps_reach_hear (ha : a.Tame) (c : Change) :
    Keeps (fun s : Scene σ => Reach w s.workspace) (a.hear c) := fun s hs =>
  Ends.of_stateAfter (P := fun t : Scene σ => Reach w t.workspace) (hs.trans (ha c s))

theorem loads_reach (ha : a.Tame) :
    Archive.Loads (fun s : Scene σ => Reach w s.workspace) a where
  tell := Act.keeps_tell (keeps_reach_hear ha)
  delete k := keeps_reach fun _ _ => .command (.delete k false)
  host _ _ hs := hs

theorem builds_reach (h : w.Sound) (hm : w.Minted) {given : Value → Prop}
    (hg : ∀ id, given id → w.Admits id) :
    Snapshot.Builds (fun s : Scene σ => Reach w s.workspace) given where
  create _ id _ _ hid := keeps_reach fun _ hr => .create ((hg id hid).mono (h.reach hm hr).created)
  disable k := keeps_reach fun _ _ => .disable k
  connectValue above socket below := keeps_reach fun _ _ =>
    .command (.connectValue above socket below)
  connectNext above below := keeps_reach fun _ _ => .command (.connectNext above below)

/-- What a call does to a sound workspace comes of strokes. -/
theorem Call.reaches (ha : a.Tame) {s : Scene σ} (h : s.workspace.Sound)
    (hm : s.workspace.Minted) {c : Call} (hc : c.Admissible s) :
    Reach s.workspace (c.after a s).workspace := by
  have loads := loads_reach (w := s.workspace) ha
  have ends : Ends (c.act a) s (fun _ t => Reach s.workspace t.workspace)
      fun _ t => Reach s.workspace t.workspace := by
    refine c.ends_act loads .refl ?create (fun d _ => keeps_reach fun _ _ => .command d) ?load
    case create =>
      rintro type id position fields rfl
      exact keeps_reach fun _ hr => .create (Workspace.Admits.mono hc (h.reach hm hr).created)
    case load =>
      rintro archive rfl
      exact loads.ends_load (fun _ muted hr => hr.tail (.mute muted)) archive .refl fun text ht =>
        builds_reach h hm (hc text ht)
  exact ends.stateAfter (P := fun t : Scene σ => Reach s.workspace t.workspace)

end

/-! ### Histories -/

/-- The workspaces that come of a new one by calls, also by calls that fail, on whatever scene. -/
inductive History (a : Audience σ) (v : Vocabulary) : Workspace → Prop where
  | new (created : Nat) : History a v (Workspace.new v created)
  | call {s : Scene σ} {c : Call} : History a v s.workspace → c.Admissible s →
      History a v (c.after a s).workspace

theorem Vocabulary.worded_stock : Vocabulary.stock.Worded := by
  unfold Vocabulary.Worded
  simp [stock, addText, wait, text, textJoin, colourPicker, colourRgb, mathNumber, inputOf]

theorem Workspace.sound_new {v : Vocabulary} (hv : v.Worded) (created : Nat) :
    (Workspace.new v created).Sound := by
  refine Sound.of_empty ?_ fun k => ?_
  · change (if v.declarations.isEmpty then Vocabulary.stock else v).Worded
    split
    · exact Vocabulary.worded_stock
    · exact hv
  · rw [find?, Table.find?_eq]
    rfl

theorem History.grounded {a : Audience σ} (ha : a.Tame) {v : Vocabulary} (hv : v.Worded)
    {w : Workspace} (h : History a v w) : w.Sound ∧ w.Minted := by
  induction h with
  | new created => exact ⟨Workspace.sound_new hv created, fun n _ => Table.find?_eq _ _⟩
  | call _ hc ih =>
      have hlater := ih.1.reach ih.2 (Call.reaches ha ih.1 ih.2 hc)
      exact ⟨hlater.sound, hlater.minted ih.2⟩

/-- **The workspaces of a history are sound.** -/
theorem History.sound {a : Audience σ} (ha : a.Tame) {v : Vocabulary} (hv : v.Worded)
    {w : Workspace} (h : History a v w) : w.Sound := (h.grounded ha hv).1

end Blockwork
