import Blockwork.Workspace.Edit

/-!
# Outcomes

What an action comes to from a state: an answer or an error, and in both cases another state.
`Ends x s good bad` says that `x`, begun in `s`, ends with an answer and a state that are `good`, or
with an error and a state that are `bad`; the rules follow the way in which actions are put
together.  `Still x` says that `x` leaves every state as it is.
-/

namespace Blockwork

/-- What is put together without a state has an answer only where its parts have. -/
theorem exists_of_bind_ok {ε α β : Type} {r : Except ε α} {f : α → Except ε β} {b : β}
    (h : (r >>= f) = .ok b) : ∃ a, r = .ok a ∧ f a = .ok b := by
  cases r with
  | error e => cases h
  | ok a => exact ⟨a, rfl, h⟩

variable {ε σ α β : Type}

/-- Where an action ends that begins in `s`. -/
def Ends (x : EStateM ε σ α) (s : σ) (good : α → σ → Prop) (bad : ε → σ → Prop) : Prop :=
  match x s with
  | .ok a t => good a t
  | .error e t => bad e t

/-- The state in which an action ends that begins in `s`. -/
def stateAfter (x : EStateM ε σ α) (s : σ) : σ :=
  match x s with
  | .ok _ t => t
  | .error _ t => t

namespace Ends

variable {x : EStateM ε σ α} {s t : σ} {a : α} {e : ε} {good good' : α → σ → Prop}
  {bad bad' : ε → σ → Prop}

theorem of_ok (h : x s = .ok a t) : Ends x s good bad ↔ good a t := by
  unfold Ends
  rw [h]

theorem of_error (h : x s = .error e t) : Ends x s good bad ↔ bad e t := by
  unfold Ends
  rw [h]

theorem mono (h : Ends x s good bad) (hg : ∀ a t, good a t → good' a t)
    (hb : ∀ e t, bad e t → bad' e t) : Ends x s good' bad' := by
  unfold Ends at *
  split at h
  · exact hg _ _ h
  · exact hb _ _ h

theorem and (h : Ends x s good bad) (k : Ends x s good' bad') :
    Ends x s (fun a t => good a t ∧ good' a t) (fun e t => bad e t ∧ bad' e t) := by
  unfold Ends at *
  split at h
  · rename_i hx
    rw [hx] at k
    exact ⟨h, k⟩
  · rename_i hx
    rw [hx] at k
    exact ⟨h, k⟩

theorem self (x : EStateM ε σ α) (s : σ) :
    Ends x s (fun a t => x s = .ok a t) fun e t => x s = .error e t := by
  unfold Ends
  split <;> assumption

/-- An action that cannot end in an error has an answer. -/
theorem exists_ok (h : Ends x s good fun _ _ => False) : ∃ a t, x s = .ok a t ∧ good a t := by
  unfold Ends at h
  split at h
  · exact ⟨_, _, ‹_›, h⟩
  · exact h.elim

/-- One that cannot have an answer ends in an error. -/
theorem exists_error (h : Ends x s (fun _ _ => False) bad) : ∃ e t, x s = .error e t ∧ bad e t := by
  unfold Ends at h
  split at h
  · exact h.elim
  · exact ⟨_, _, ‹_›, h⟩

theorem bind {f : α → EStateM ε σ β} {good : β → σ → Prop}
    (h : Ends x s (fun a t => Ends (f a) t good bad) bad) : Ends (x >>= f) s good bad := by
  simp only [Ends, Bind.bind, EStateM.bind] at *
  split at h <;> rename_i hx <;> rw [hx] <;> exact h

theorem pure (h : good a s) : Ends (pure a : EStateM ε σ α) s good bad := h

theorem throw (h : bad e s) : Ends (throw e : EStateM ε σ α) s good bad := h

theorem get {good : σ → σ → Prop} (h : good s s) :
    Ends (get : EStateM ε σ σ) s good bad := h

theorem set {good : PUnit → σ → Prop} (h : good ⟨⟩ t) :
    Ends (set t : EStateM ε σ PUnit) s good bad := h

theorem modify {f : σ → σ} {good : Unit → σ → Prop} (h : good () (f s)) :
    Ends (modify f : EStateM ε σ Unit) s good bad := h

theorem map {f : α → β} {good : β → σ → Prop} (h : Ends x s (fun a t => good (f a) t) bad) :
    Ends (f <$> x) s good bad := by
  simp only [Ends, Functor.map, EStateM.map] at *
  split at h <;> rename_i hx <;> rw [hx] <;> exact h

/-- An action of which the first part is done in one case only. -/
theorem skip {q : Prop} [Decidable q] {rest : EStateM ε σ β} {good : β → σ → Prop} {P : σ → Prop}
    (hx : q → Ends x s (fun _ t => P t) bad) (hs : ¬ q → P s)
    (hr : ∀ t, P t → Ends rest t good bad) :
    Ends (if q then x >>= fun _ => rest else rest) s good bad := by
  split
  · exact bind ((hx ‹_›).mono (fun _ => hr) fun _ _ he => he)
  · exact hr s (hs ‹_›)

/-- An action that ends well whatever its first part comes to. -/
theorem after {x : EStateM ε σ α} {f : α → EStateM ε σ β} {good : β → σ → Prop}
    {bad : ε → σ → Prop} (hb : ∀ e t, bad e t) (h : ∀ a t, Ends (f a) t good bad) :
    Ends (x >>= f) s good bad :=
  bind ((self x s).mono (fun a t _ => h a t) fun e t _ => hb e t)

/-- What holds of every state in which an action can end holds of the state in which it ends. -/
theorem stateAfter {P : σ → Prop} (h : Ends x s (fun _ t => P t) fun _ t => P t) :
    P (stateAfter x s) := by
  unfold Ends at h
  unfold Blockwork.stateAfter
  cases hx : x s with
  | ok a t => rw [hx] at h; exact h
  | error e t => rw [hx] at h; exact h

theorem of_stateAfter {P : σ → Prop} (h : P (Blockwork.stateAfter x s)) :
    Ends x s (fun _ t => P t) fun _ t => P t := by
  unfold Blockwork.stateAfter at h
  unfold Ends
  cases hx : x s with
  | ok a t => rw [hx] at h; exact h
  | error e t => rw [hx] at h; exact h

end Ends

/-! ### Actions that change nothing -/

/-- Whether an action leaves every state as it is. -/
def Still (x : EStateM ε σ α) : Prop := ∀ s, Ends x s (fun _ t => t = s) fun _ t => t = s

namespace Still

variable {x : EStateM ε σ α} {s : σ} {good : α → σ → Prop} {bad : ε → σ → Prop}

theorem pure (a : α) : Still (pure a : EStateM ε σ α) := fun _ => Ends.pure rfl

theorem throw (e : ε) : Still (throw e : EStateM ε σ α) := fun _ => Ends.throw rfl

theorem get : Still (get : EStateM ε σ σ) := fun _ => Ends.get rfl

theorem bind {f : α → EStateM ε σ β} (h : Still x) (k : ∀ a, Still (f a)) : Still (x >>= f) :=
  fun s => Ends.bind ((h s).mono (fun a t e => e ▸ k a t) fun _ _ e => e)

/-- Whatever the answer of an action that changes nothing, the state is the same. -/
theorem ends (h : Still x) (hg : ∀ a, good a s) (hb : ∀ e, bad e s) : Ends x s good bad :=
  (h s).mono (fun a _ e => e ▸ hg a) fun e' _ e => e ▸ hb e'

end Still

/-! ### Parts of edits -/

namespace Edit

variable {w : Workspace} {good : α → Workspace → Prop} {bad : Error → Workspace → Prop}

theorem ends_refuse {v : Violation} (h : bad (.violation v) w) :
    Ends (refuse v : Edit α) w good bad := h

theorem ends_ofExcept {r : Except Error α} (hg : ∀ a, r = .ok a → good a w)
    (hb : ∀ e, r = .error e → bad e w) : Ends (ofExcept r) w good bad := by
  cases r with
  | ok a => exact hg a rfl
  | error e => exact hb e rfl

theorem ends_ofExcept_ok {r : Except Error α} {a : α} (hr : r = .ok a) (hg : good a w) :
    Ends (ofExcept r) w good bad := by
  rw [hr]
  exact hg

theorem ends_require {id : Key} {good : Block → Workspace → Prop}
    (hg : ∀ b, w.find? id = some b → good b w)
    (hb : w.find? id = none → bad (.violation (.noSuchBlock id)) w) :
    Ends (require id) w good bad := by
  refine Ends.bind (Ends.get ?_)
  cases h : w.find? id with
  | none => exact ends_refuse (hb h)
  | some b => exact Ends.pure (hg b h)

theorem ends_deref {k : Key} {b : Block} {good : Block → Workspace → Prop}
    (h : w.find? k = some b) (hg : good b w) : Ends (deref k) w good bad := by
  refine Ends.bind (Ends.get ?_)
  rw [h]
  exact Ends.pure hg

theorem ends_follow {link : Value} {k : Key} {b : Block} {good : Key → Workspace → Prop}
    (hk : link.toKey = .ok k) (h : w.find? k = some b) (hg : good k w) :
    Ends (follow link) w good bad := by
  refine Ends.bind (ends_ofExcept (fun j hj => ?_) fun e he => ?_)
  · obtain rfl := Except.ok.inj (hk.symm.trans hj)
    exact Ends.bind (ends_deref h (Ends.pure hg))
  · rw [hk] at he; cases he

theorem ends_declarationOf_ok {b : Block} {d : Declaration} {good : Declaration → Workspace → Prop}
    (hd : w.declarationOf b = .ok d) (hg : good d w) : Ends (declarationOf b) w good bad :=
  Ends.bind (Ends.get (ends_ofExcept_ok hd hg))

/-- A check that refuses an edit. -/
theorem ends_guard {q : Prop} [Decidable q] {v : Violation} {rest : Unit → Edit α}
    (hb : q → bad (.violation v) w) (hg : ¬ q → Ends (rest ()) w good bad) :
    Ends (if q then (refuse v : Edit Unit) >>= rest else rest ()) w good bad := by
  split
  · exact Ends.bind (ends_refuse (hb ‹_›))
  · exact hg ‹_›

end Edit

-- what follows is proved by the rules, and never by running an action
attribute [irreducible] Ends

end Blockwork
