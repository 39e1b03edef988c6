import Blockwork.Proofs.Clearing

/-!
# Requests that are declined

A request is a call that changes a workspace, with whatever is given for an id, a field or a
coordinate (`Request`).  When it fails, and the error does not come out of the audience, then the
scene is as it was (`History.declines`): the edit that is asked for has failed, and every check of an
edit comes before its first change.

In a sound workspace nothing that is looked up after the first change can be missing; the rules for
the edits of links, of deleting and of dragging say so, and here they are read from the side of the
errors (`Workspace.Sound.declines_command`).  Creating a block needs no sound workspace, and no id
that could be given (`Edit.ends_create_declined`).
-/

namespace Blockwork

/-! ### Requests -/

/-- A block's key, as it is given. -/
def Edit.named (id : Value) : Edit Key := Edit.ofExcept id.toKey

/-- What can be asked of a workspace, with anything in the place of an id. -/
inductive Request where
  | create (type id position : Value) (fields : List (Key × Value))
  | setField (id name value : Value)
  | setEnabled (id enabled : Value)
  | move (id x y : Value)
  | disconnect (id : Value)
  | connectValue (above socket below : Value)
  | connectNext (above below : Value)
  | delete (id heal : Value)
  | beginDrag (id : Value)
  | endDrag (id : Value)

/-- The edit that a request asks for.  Where it is about two blocks, the first one has to be there
before the second one is looked for. -/
def Request.edit : Request → Edit (List Notice)
  | .create type id position fields => (·.2) <$> Edit.create type id position fields
  | .setField id name value => do Edit.setField (← Edit.named id) name value
  | .setEnabled id enabled => do Edit.setEnabled (← Edit.named id) enabled
  | .move id x y => do Edit.move (← Edit.named id) x y
  | .disconnect id => do Edit.disconnect (← Edit.named id)
  | .connectValue above socket below => do
    let p ← Edit.named above
    let _ ← Edit.require p
    Edit.connectValue p socket (← Edit.named below)
  | .connectNext above below => do
    let p ← Edit.named above
    let _ ← Edit.require p
    Edit.connectNext p (← Edit.named below)
  | .delete id heal => do Edit.delete (← Edit.named id) heal.isTruthy
  | .beginDrag id => do Edit.beginDrag (← Edit.named id)
  | .endDrag id => do Edit.endDrag (← Edit.named id)

/-- What a request does. -/
def Request.act {σ : Type} (a : Audience σ) (r : Request) : Act σ Unit := Act.perform a r.edit

/-! ### Edits that fail -/

namespace Edit

variable {α β : Type} {w : Workspace}

/-- Whether a workspace in which an edit fails is the one in which it began. -/
def Declines (x : Edit α) (w : Workspace) : Prop := Ends x w (fun _ _ => True) fun _ u => u = w

/-- What an edit does before it changes anything. -/
theorem Declines.after {x : Edit α} {f : α → Edit β} (hx : Still x) (hf : ∀ a, Declines (f a) w) :
    Declines (x >>= f) w := Ends.bind (hx.ends hf fun _ => rfl)

theorem still_ofExcept (r : Except Error α) : Still (ofExcept r) := by
  cases r with
  | ok a => exact Still.pure a
  | error e => exact Still.throw e

theorem still_require (k : Key) : Still (require k) := by
  refine Still.get.bind fun w => ?_
  cases w.find? k with
  | none => exact Still.throw _
  | some b => exact Still.pure b

theorem still_claimId (id : Value) : Still (claimId id) := by
  unfold claimId
  split
  · exact Still.pure none
  · refine (still_ofExcept _).bind fun k => Still.get.bind fun w => ?_
    split
    · exact Still.throw _
    · exact Still.pure (some k)

/-- A block is created after all checks, whatever is asked for. -/
theorem ends_create_declined (type id position : Value) (fields : List (Key × Value)) :
    Declines (create type id position fields) w := by
  refine Declines.after Still.get fun _ => Declines.after (still_ofExcept _) fun _ => ?_
  refine Declines.after (still_ofExcept _) fun d => Declines.after (still_claimId id) fun _ => ?_
  rw [fillFields_eq]
  refine Declines.after (still_ofExcept _) fun _ => Declines.after (still_ofExcept _) fun _ => ?_
  refine Declines.after Still.get fun _ => ?_
  exact Ends.bind (Ends.modify (Ends.pure trivial))

end Edit

/-- A command that a sound workspace fails at leaves it as it is. -/
theorem Workspace.Sound.declines_command {w : Workspace} (h : w.Sound) (c : Command) :
    Edit.Declines c.edit w := by
  unfold Edit.Declines
  cases c with
  | setField id name value =>
      exact Edit.ends_setField h (fun _ => rfl) trivial fun _ _ _ _ _ _ _ _ _ _ _ => trivial
  | setEnabled id enabled =>
      exact Edit.ends_setEnabled h (fun _ => rfl) trivial fun _ _ _ => trivial
  | move id x y => exact Edit.ends_move h (fun _ => rfl) fun _ _ _ _ _ => trivial
  | connectValue above socket below =>
      exact Edit.ends_connectValue h (fun _ _ => rfl) fun _ _ _ _ _ _ _ _ => trivial
  | connectNext above below =>
      exact Edit.ends_connectNext h (fun _ _ => rfl) fun _ _ _ _ _ _ _ _ => trivial
  | disconnect id => exact Edit.ends_disconnect h (fun _ _ => rfl) fun _ _ _ => trivial
  | delete id heal => exact Edit.ends_delete h (fun _ _ => rfl) fun _ _ _ _ _ => trivial
  | beginDrag id => exact Edit.ends_beginDrag (fun _ => rfl) fun _ => trivial
  | endDrag id => exact Edit.ends_endDrag (fun _ => rfl) fun _ => trivial

/-- So does a request. -/
theorem Workspace.Sound.declines_request {w : Workspace} (h : w.Sound) (r : Request) :
    Edit.Declines r.edit w := by
  have named (id : Value) (c : Key → Command) :
      Edit.Declines (do (c (← Edit.named id)).edit) w :=
    Edit.Declines.after (Edit.still_ofExcept _) fun k => h.declines_command (c k)
  cases r with
  | create type id position fields =>
      exact Ends.map (Edit.ends_create_declined type id position fields)
  | setField id name value => exact named id (.setField · name value)
  | setEnabled id enabled => exact named id (.setEnabled · enabled)
  | move id x y => exact named id (.move · x y)
  | disconnect id => exact named id .disconnect
  | delete id heal => exact named id (.delete · heal.isTruthy)
  | beginDrag id => exact named id .beginDrag
  | endDrag id => exact named id .endDrag
  | connectValue above socket below =>
      refine Edit.Declines.after (Edit.still_ofExcept _) fun p => ?_
      refine Edit.Declines.after (Edit.still_require p) fun _ => ?_
      exact named below (.connectValue p socket ·)
  | connectNext above below =>
      refine Edit.Declines.after (Edit.still_ofExcept _) fun p => ?_
      refine Edit.Declines.after (Edit.still_require p) fun _ => ?_
      exact named below (.connectNext p ·)

/-! ### Histories -/

namespace History

variable {σ τ : Type} {a : Audience σ} {v : Vocabulary} {g : Workspace} {b : Audience τ} {s t : Scene τ}

/-- **A request that is declined leaves no trace.**  When a request fails, then either the scene is as
it was, and nobody was told of anything, or the edit has gone through and the error comes out of the
audience. -/
theorem declines (ha : a.Tame) (hv : v.Worded) (hg : History a v g) (hs : s.workspace = g)
    {r : Request} {e : Error} (hr : r.act b s = .error e t) :
    (t = s ∧ r.edit g = .error e g) ∨
      ∃ notices w, r.edit g = .ok notices w ∧
        Act.tellAll b notices { s with workspace := w } = .error e t := by
  subst hs
  have hdeclines := (Ends.self r.edit s.workspace).and ((hg.sound ha hv).declines_request r)
  cases hedit : r.edit s.workspace with
  | ok notices w =>
      refine .inr ⟨notices, w, rfl, ?_⟩
      simpa [Request.act, Act.perform, Act.edit, Bind.bind, EStateM.bind, hedit] using hr
  | error e' w =>
      rw [Ends.of_error hedit] at hdeclines
      obtain ⟨-, rfl⟩ := hdeclines
      obtain ⟨rfl, rfl⟩ : e' = e ∧ s = t := by
        simpa [Request.act, Act.perform, Act.edit, Bind.bind, EStateM.bind, hedit] using hr
      exact .inl ⟨rfl, rfl⟩

/-- A block is not moved to a place that is no number. -/
theorem declines_far : ∃ s : Scene (List Change), History .journal .stock s.workspace ∧
    (s.workspace.block? "word").isSome ∧
    ∃ e t, (Request.move (.text "word") (.text "far") (.int 0)).act .journal s = .error e t ∧ t = s := by
  obtain ⟨w, hw, -, hlone⟩ := exists_text (x := "word") (by decide) (by decide)
  let s : Scene (List Change) := { workspace := w, audience := [] }
  let r : Request := .move (.text "word") (.text "far") (.int 0)
  have hedit : Ends r.edit w (fun _ _ => False) fun _ _ => True := by
    refine Ends.bind (Edit.ends_ofExcept_ok rfl ?_)
    refine Ends.bind (Edit.ends_require (fun _ _ => ?_) fun _ => trivial)
    have hfar : Edit.coordinates (.list [.text "far", .int 0]) = .error (.failure .badValue) := rfl
    rw [hfar]
    exact Ends.bind (Ends.throw trivial)
  have hact : Ends (r.act .journal) s (fun _ _ => False) fun _ _ => True :=
    Ends.bind (Act.ends_edit (hedit.mono (fun _ _ h => h.elim) fun _ _ h => h))
  refine ⟨s, hw, by rw [show s.workspace.block? "word" = _ from hlone.block?_self]; rfl, ?_⟩
  cases hr : r.act .journal s with
  | ok _ t =>
      rw [Ends.of_ok hr] at hact
      exact hact.elim
  | error e t =>
      refine ⟨e, t, rfl, ?_⟩
      rcases declines Audience.tame_journal Vocabulary.worded_stock hw (s := s) rfl hr with
        ⟨ht, -⟩ | ⟨ns, u, hns, -⟩
      · exact ht
      · rw [Ends.of_ok hns] at hedit
        exact hedit.elim

end History

/-! ### What leaves a trace -/

namespace Loading

/-- The block that holds another one twice is deleted, and that one too, and then it is missing. -/
theorem ends_delete_drained {w : Workspace} {muted : Nat}
    (h : w.Listed namelessVocabulary muted doubled) :
    Ends (Edit.delete (.text "p") false) w (fun _ _ => False)
      fun e u => e = .failure .missingKey ∧ u.entries = [] ∧ u.dragging = w.dragging := by
  unfold Edit.delete
  refine Ends.bind (h.ends_require rfl ?_)
  dsimp only
  rw [if_neg (by decide)]
  refine Ends.bind (h.ends_unplug_loose rfl rfl ?_)
  refine Ends.bind (Ends.get (Ends.bind (Edit.ends_ofExcept_ok (descendants_doubled h) ?_)))
  refine Ends.bind (h.ends_removeAll_cons (k := .text "p") rfl rfl fun u hu hd => ?_)
  refine hu.ends_removeAll_cons (k := .text "c") rfl rfl fun u hu hd' => ?_
  refine Ends.bind (Ends.bind (Edit.ends_ofExcept_ok rfl (Ends.bind (Ends.bind (Ends.get ?_)))))
  rw [hu.find?_eq]
  exact Ends.throw ⟨rfl, hu.entries, hd'.trans hd⟩

theorem ends_delete_doubled {w : Workspace} {muted : Nat}
    (h : w.Listed namelessVocabulary muted doubled) :
    Ends (Edit.delete (.text "p") false) w (fun _ _ => False) fun _ u => u.entries = [] :=
  (ends_delete_drained h).mono (fun _ _ hu => hu) fun _ _ hu => hu.2.1

/-- A request that fails can leave a trace. -/
theorem trace_left : ∃ s t : Scene (List Change), History .journal namelessVocabulary s.workspace ∧
    (∃ e u, (Request.delete (.text "p") .null).edit s.workspace = .error e u ∧
      (Request.delete (.text "p") .null).act .journal s = .error e t) ∧
      s.workspace.blocks ≠ [] ∧ t.workspace.blocks = [] := by
  obtain ⟨w, hw, h⟩ := exists_doubled
  let s : Scene (List Change) := { workspace := w, audience := [] }
  have hends : Ends (Request.delete (.text "p") .null).edit w (fun _ _ => False)
      fun _ u => u.entries = [] := Ends.bind (Edit.ends_ofExcept_ok rfl (ends_delete_doubled h))
  cases hedit : (Request.delete (.text "p") .null).edit w with
  | ok ns u =>
      rw [Ends.of_ok hedit] at hends
      exact hends.elim
  | error e u =>
      rw [Ends.of_error hedit] at hends
      refine ⟨s, { s with workspace := u }, hw, ⟨e, u, hedit, ?_⟩, ?_, ?_⟩
      · simp [Request.act, Act.perform, Act.edit, Bind.bind, EStateM.bind, s, hedit]
      · rw [show s.workspace = w from rfl, Workspace.blocks, h.entries]
        exact List.cons_ne_nil _ _
      · rw [Workspace.blocks, hends]
        rfl

end Loading

end Blockwork
