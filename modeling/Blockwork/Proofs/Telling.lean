import Blockwork.Proofs.Declining
import Blockwork.Proofs.Loading

/-!
# What edits tell

An edit that answers with nothing has changed nothing; a gesture that begins tells no more than that
the view is another one; and whatever else an edit does, the last thing that it tells is a change of
the workspace (`Workspace.Told`).  So nobody who goes by what is told misses a change
(`Workspace.Steady.ends_command`, `Workspace.Steady.ends_create`).
-/

namespace Blockwork

/-- A notice that the workspace has changed. -/
def Notice.Tells (n : Notice) : Prop := n.kind.isView = false ∧ n.kind ≠ .finishedLoading

namespace Workspace

/-- What an edit tells of what it has made of a workspace. -/
inductive Told (w : Workspace) : List Notice → Workspace → Prop where
  | nothing : w.Told [] w
  | dragged {ns : List Notice} : (∀ n ∈ ns, n.kind.isView = true) →
      w.Told ns { w with dragging := true }
  | changed {ns : List Notice} {n : Notice} {w' : Workspace} : (∀ n ∈ ns, n.kind.isView = true) →
      n.Tells → w.Told (ns ++ [n]) w'

variable {w w' : Workspace}

theorem Told.one {n : Notice} (h : n.Tells) : w.Told [n] w' :=
  show w.Told ([] ++ [n]) w' from .changed (List.forall_mem_nil _) h

end Workspace

namespace Edit

variable {w : Workspace} {α : Type}

/-- Whether an edit tells of what it does. -/
def Tells (e : Edit (List Notice)) (w : Workspace) : Prop := Ends e w w.Told fun _ _ => True

/-- What is done before anything is changed tells nothing. -/
theorem Tells.first {x : Edit α} {f : α → Edit (List Notice)} (hx : Still x)
    (h : ∀ a, Tells (f a) w) : Tells (x >>= f) w := Ends.bind (hx.ends h fun _ => trivial)

/-- After a change a notice of it is all that is answered. -/
theorem tells_after {x : Edit α} {f : α → Edit (List Notice)}
    (h : ∀ a w', Ends (f a) w' w.Told fun _ _ => True) {w' : Workspace} :
    Ends (x >>= f) w' w.Told fun _ _ => True := Ends.after (fun _ _ => trivial) h

theorem still_declarationOf (b : Block) : Still (declarationOf b) :=
  Still.get.bind fun _ => still_ofExcept _

theorem tells_notice {kind : Change.Kind} {id : Key} {data : List (String × Value)}
    (hv : kind.isView = false) (hf : kind ≠ .finishedLoading) {w' : Workspace} :
    Ends (pure [notice kind id data] : Edit (List Notice)) w' w.Told fun _ _ => True :=
  Ends.pure (.one ⟨hv, hf⟩)

theorem tells_setField (id : Key) (name value : Value) : Tells (setField id name value) w := by
  refine Tells.first (still_require id) fun b => Tells.first (still_declarationOf b) fun d => ?_
  split
  · refine Tells.first (still_ofExcept _) fun new => ?_
    split
    · exact Ends.pure .nothing
    · exact tells_after fun _ _ => tells_notice rfl Change.Kind.noConfusion
  · exact Ends.throw trivial

theorem tells_setEnabled (id : Key) (enabled : Value) : Tells (setEnabled id enabled) w := by
  refine Tells.first (still_require id) fun b => ?_
  split
  · exact Ends.pure .nothing
  · exact tells_after fun _ _ => tells_notice rfl Change.Kind.noConfusion

theorem tells_move (id : Key) (x y : Value) : Tells (move id x y) w := by
  refine Tells.first (still_require id) fun b => Tells.first (still_ofExcept _) fun _ => ?_
  exact tells_after fun _ _ => tells_notice rfl Change.Kind.noConfusion

theorem tells_disconnect (id : Key) : Tells (disconnect id) w := by
  refine Tells.first (still_require id) fun b => ?_
  split
  · exact Ends.pure .nothing
  · exact tells_after fun _ _ => tells_notice rfl Change.Kind.noConfusion

theorem tells_connectValue (above : Key) (socket : Value) (below : Key) :
    Tells (connectValue above socket below) w := by
  refine Tells.first (still_require above) fun p => Tells.first (still_require below) fun c => ?_
  refine Tells.first (still_declarationOf p) fun d => ?_
  split
  · split
    · refine Tells.first (still_declarationOf c) fun e => ?_
      refine Edit.ends_guard (fun _ => trivial) fun _ => Tells.first (still_ofExcept _) fun _ => ?_
      refine Edit.ends_guard (fun _ => trivial) fun _ => Tells.first Still.get fun _ => ?_
      refine Tells.first (still_ofExcept _) fun _ => Edit.ends_guard (fun _ => trivial) fun _ => ?_
      dsimp only
      split
      · exact Ends.pure .nothing
      · split
        · refine tells_after fun _ _ => tells_after fun _ _ => tells_after fun _ _ => ?_
          exact tells_after fun _ _ => tells_after fun _ _ =>
            tells_notice rfl Change.Kind.noConfusion
        · exact tells_after fun _ _ => tells_after fun _ _ => tells_after fun _ _ =>
            tells_notice rfl Change.Kind.noConfusion
    · exact Ends.throw trivial
  · exact Ends.throw trivial

theorem tells_connectNext (above below : Key) : Tells (connectNext above below) w := by
  refine Tells.first (still_require above) fun p => Tells.first (still_require below) fun c => ?_
  refine Tells.first (still_declarationOf p) fun d => ?_
  refine Edit.ends_guard (fun _ => trivial) fun _ => Tells.first (still_declarationOf c) fun e => ?_
  refine Edit.ends_guard (fun _ => trivial) fun _ => Tells.first Still.get fun _ => ?_
  refine Tells.first (still_ofExcept _) fun _ => Edit.ends_guard (fun _ => trivial) fun _ => ?_
  split
  · exact Ends.pure .nothing
  · have told (w' : Workspace) : Ends (pure [notice .move below
        [("new_parent", .ofKey above), ("new_input", .null)]] : Edit (List Notice)) w' w.Told
        fun _ _ => True := tells_notice rfl Change.Kind.noConfusion
    refine tells_after fun _ _ => tells_after fun _ _ => ?_
    dsimp only
    split
    · refine tells_after fun _ _ => tells_after fun _ _ => tells_after fun _ _ => ?_
      refine tells_after fun _ _ => tells_after fun _ _ => tells_after fun _ _ => ?_
      split
      · refine tells_after fun _ _ => ?_
        split
        · exact tells_after fun _ _ => tells_after fun _ _ => tells_after fun _ _ => told _
        · exact told _
      · exact told _
    · exact tells_after fun _ _ => tells_after fun _ _ => told _

/-- Only a block that is there can be deleted, and that is all that is told. -/
theorem ends_delete_told (id : Key) (heal : Bool) : Ends (delete id heal) w
    (fun ns _ => w.contains id = true ∧ ∃ data, ns = [notice .delete id data]) fun _ _ => True := by
  refine Ends.bind (ends_require (fun b hb => ?_) fun _ => trivial)
  have after {α : Type} {x : Edit α} {f : α → Edit (List Notice)}
      (h : ∀ a w', Ends (f a) w' (fun ns _ => w.contains id = true ∧
        ∃ data, ns = [notice .delete id data]) fun _ _ => True) (w' : Workspace) :=
    Ends.after (x := x) (s := w') (fun _ _ => trivial) h
  have told (data : List (String × Value)) (w' : Workspace) :
      Ends (pure [notice .delete id data] : Edit (List Notice)) w'
        (fun ns _ => w.contains id = true ∧ ∃ data, ns = [notice .delete id data])
        fun _ _ => True :=
    Ends.pure ⟨Option.isSome_of_mem hb, data, rfl⟩
  dsimp only
  split
  · refine after (fun _ => after fun _ => after fun _ => after fun _ => ?_) w
    exact after fun _ => after fun _ => after fun _ => told _
  · exact after (fun _ => after fun _ => after fun _ => after fun _ => told _) w

theorem tells_delete (id : Key) (heal : Bool) : Tells (delete id heal) w := by
  refine (ends_delete_told id heal).mono (fun ns w' hns => ?_) fun _ _ h => h
  obtain ⟨-, data, rfl⟩ := hns
  exact .one ⟨rfl, Change.Kind.noConfusion⟩

theorem tells_beginDrag (id : Key) : Tells (beginDrag id) w := by
  refine Tells.first (still_require id) fun _ => ?_
  refine Ends.bind (Ends.modify (Ends.pure (.dragged fun n hn => ?_)))
  obtain rfl := List.mem_singleton.mp hn
  rfl

theorem tells_endDrag (id : Key) : Tells (endDrag id) w := by
  refine Tells.first (still_require id) fun _ => tells_after fun _ _ => ?_
  refine Ends.pure (show w.Told ([_] ++ [_]) _ from
    .changed (fun n hn => ?_) ⟨rfl, Change.Kind.noConfusion⟩)
  obtain rfl := List.mem_singleton.mp hn
  rfl

theorem tells_command (c : Command) : Tells c.edit w := by
  cases c with
  | setField id name value => exact tells_setField id name value
  | setEnabled id enabled => exact tells_setEnabled id enabled
  | move id x y => exact tells_move id x y
  | connectValue above socket below => exact tells_connectValue above socket below
  | connectNext above below => exact tells_connectNext above below
  | disconnect id => exact tells_disconnect id
  | delete id heal => exact tells_delete id heal
  | beginDrag id => exact tells_beginDrag id
  | endDrag id => exact tells_endDrag id

end Edit

/-! ### Edits of steady workspaces -/

theorem persistent_placed (v : Vocabulary) :
    Persistent v fun b => ∃ x y, b.position = [.float x, .float y] where
  core hc hb := by
    have hposition := congrArg Block.position hc
    dsimp only [Block.core] at hposition
    rwa [hposition]
  created _ _ hp := Edit.exists_of_coordinates hp
  written _ _ _ _ hb := hb
  moved hp _ := Edit.exists_of_coordinates hp
  raised hb _ := hb
  switched _ hb := hb

namespace Workspace

variable {w : Workspace}

/-- Whether a workspace is told of as what an edit has made of another one. -/
structure Becomes (w : Workspace) (ns : List Notice) (w' : Workspace) : Prop where
  told : w.Told ns w'
  later : w.Later w'
  steady : w'.Steady

/-- **An edit that a steady workspace goes through is told of, and one that fails leaves it as it
is.** -/
theorem Steady.ends_command (h : w.Steady) (c : Command) :
    Ends c.edit w w.Becomes fun _ w' => w' = w := by
  have hends := ((Edit.tells_command c (w := w)).and (h.sound.declines_command c)).and
    ((h.sound.command c).and ((h.sound.holds_command (persistent_placed _) h.placed c).and
      ((steady_muted 0).keeps_command c w h.told)))
  refine hends.mono (fun ns w' hw => ?_) fun _ _ he => he.1.2
  obtain ⟨⟨htold, -⟩, hlater, hplaced, hmuted⟩ := hw
  exact ⟨htold, hlater, hlater.sound, hlater.minted h.minted, hplaced, hmuted⟩

theorem Steady.ends_create (h : w.Steady) {type id position : Value}
    {fields : List (Key × Value)} (hid : w.Admits id) :
    Ends (Edit.create type id position fields) w (fun r => w.Becomes r.2) fun _ w' => w' = w := by
  have htold : Ends (Edit.create type id position fields) w (fun r w' => w.Told r.2 w')
      fun _ _ => True :=
    Edit.ends_create hid.isId (fun _ _ => trivial) fun _ _ _ _ =>
      .one ⟨rfl, Change.Kind.noConfusion⟩
  have hplaced : Ends (Edit.create type id position fields) w (fun _ w' => w'.Placed)
      fun _ w' => w'.Placed :=
    .of_stateAfter (P := Placed) (h.sound.holds_stroke (persistent_placed _) h.placed (.create hid))
  have hends := (htold.and (Edit.ends_create_declined type id position fields)).and
    ((h.sound.create h.minted hid).and (hplaced.and
      ((steady_muted 0).keeps_create type id position fields w h.told)))
  refine hends.mono (fun r w' hw => ?_) fun _ _ he => he.1.2
  obtain ⟨⟨htold, -⟩, hlater, hplaced, hmuted⟩ := hw
  exact ⟨htold, hlater, hlater.sound, hlater.minted h.minted, hplaced, hmuted⟩

end Workspace

end Blockwork
