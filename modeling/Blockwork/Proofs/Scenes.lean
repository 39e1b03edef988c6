import Blockwork.Proofs.Outcome
import Blockwork.Scene

/-!
# Actions on scenes

The rules of outcomes for the parts of actions on scenes, and what an action `Keeps`: a property of
scenes that holds wherever the action ends, when it holds where it begins.  What every part of an
action keeps the action keeps, so it is enough to look at the edits in it and at what the audience
does.
-/

namespace Blockwork

variable {ε τ σ α β : Type}

/-- Whether a property of states holds where an action ends, when it holds where it begins. -/
def Keeps (P : τ → Prop) (x : EStateM ε τ α) : Prop :=
  ∀ s, P s → Ends x s (fun _ t => P t) fun _ t => P t

namespace Keeps

variable {P : τ → Prop} {x : EStateM ε τ α}

theorem pure (a : α) : Keeps P (pure a : EStateM ε τ α) := fun _ h => Ends.pure h

theorem throw (e : ε) : Keeps P (throw e : EStateM ε τ α) := fun _ h => Ends.throw h

theorem get : Keeps P (get : EStateM ε τ τ) := fun _ h => Ends.get h

theorem bind {f : α → EStateM ε τ β} (h : Keeps P x) (k : ∀ a, Keeps P (f a)) :
    Keeps P (x >>= f) := fun s hs =>
  Ends.bind ((h s hs).mono (fun a t ht => k a t ht) fun _ _ ht => ht)

theorem stateAfter {s : τ} (h : Keeps P x) (hs : P s) : P (stateAfter x s) := (h s hs).stateAfter

end Keeps

/-- Whether an action keeps a property of states, and fails by errors of a kind only. -/
def Behaves (P : τ → Prop) (bad : ε → Prop) (x : EStateM ε τ α) : Prop :=
  ∀ s, P s → Ends x s (fun _ t => P t) fun e t => P t ∧ bad e

namespace Behaves

variable {P : τ → Prop} {bad : ε → Prop} {x : EStateM ε τ α}

theorem pure (a : α) : Behaves P bad (pure a : EStateM ε τ α) := fun _ h => Ends.pure h

theorem throw {e : ε} (he : bad e) : Behaves P bad (throw e : EStateM ε τ α) :=
  fun _ h => Ends.throw ⟨h, he⟩

theorem get : Behaves P bad (get : EStateM ε τ τ) := fun _ h => Ends.get h

theorem bind {f : α → EStateM ε τ β} (h : Behaves P bad x) (k : ∀ a, Behaves P bad (f a)) :
    Behaves P bad (x >>= f) := fun s hs =>
  Ends.bind ((h s hs).mono (fun a t ht => k a t ht) fun _ _ ht => ht)

theorem keeps (h : Behaves P bad x) : Keeps P x := fun s hs =>
  (h s hs).mono (fun _ _ ht => ht) fun _ _ ht => ht.1

end Behaves

namespace Act

variable {s : Scene σ} {good : α → Scene σ → Prop} {bad : Error → Scene σ → Prop}

theorem ends_ofExcept {r : Except Error α} (hg : ∀ a, r = .ok a → good a s)
    (hb : ∀ e, r = .error e → bad e s) : Ends (ofExcept r) s good bad := by
  cases r with
  | ok a => exact Ends.pure (hg a rfl)
  | error e => exact Ends.throw (hb e rfl)

theorem ends_ofExcept_ok {r : Except Error α} {a : α} (hr : r = .ok a) (hg : good a s) :
    Ends (ofExcept r) s good bad := by
  rw [hr]
  exact Ends.pure hg

theorem ends_edit {e : Edit α} (h : Ends e s.workspace
    (fun a w => good a { s with workspace := w }) fun x w => bad x { s with workspace := w }) :
    Ends (edit e) s good bad := by
  unfold Ends edit at *
  cases hx : e s.workspace with
  | ok a w => rw [hx] at h; exact h
  | error x w => rw [hx] at h; exact h

theorem ends_onHost {f : HostAction α} (h : Ends f s.host
    (fun a host => good a { s with host }) fun x host => bad x { s with host }) :
    Ends (onHost f) s good bad := by
  unfold Ends onHost at *
  cases hx : f s.host with
  | ok a t => rw [hx] at h; exact h
  | error x t => rw [hx] at h; exact h

theorem ends_mapError {f : Error → Error} {x : Act σ α}
    (h : Ends x s good fun e t => bad (f e) t) : Ends (mapError f x) s good bad := by
  unfold Ends mapError at *
  cases hx : x s with
  | ok a t => rw [hx] at h; exact h
  | error e t => rw [hx] at h; exact h

theorem ends_attempt {x : Act σ α} {good : Except Error α → Scene σ → Prop}
    (h : Ends x s (fun a t => good (.ok a) t) fun e t => good (.error e) t) :
    Ends (attempt x) s good bad := by
  unfold Ends attempt at *
  cases hx : x s with
  | ok a t => rw [hx] at h; exact h
  | error e t => rw [hx] at h; exact h

/-! ### What parts of actions keep -/

section

variable {P : Scene σ → Prop}

theorem keeps_ofExcept (r : Except Error α) : Keeps P (ofExcept r : Act σ α) := fun _ h =>
  ends_ofExcept (fun _ _ => h) fun _ _ => h

theorem keeps_mapError {f : Error → Error} {x : Act σ α} (h : Keeps P x) :
    Keeps P (mapError f x) := fun s hs => ends_mapError (h s hs)

theorem keeps_attempt {x : Act σ α} (h : Keeps P x) : Keeps P (attempt x) := fun s hs =>
  ends_attempt (h s hs)

theorem keeps_tell {a : Audience σ} (h : ∀ c, Keeps P (a.hear c)) (n : Notice) :
    Keeps P (tell a n) := by
  refine Keeps.get.bind fun s => ?_
  dsimp only
  split
  · exact (h _).bind fun _ => Keeps.pure _
  · exact Keeps.pure _

theorem keeps_tellAll {a : Audience σ} (h : ∀ n, Keeps P (tell a n)) (ns : List Notice) :
    Keeps P (tellAll a ns) := by
  induction ns with
  | nil => exact Keeps.pure _
  | cons n ns ih => exact (h n).bind fun _ => ih

theorem keeps_perform {a : Audience σ} (h : ∀ n, Keeps P (tell a n)) {e : Edit (List Notice)}
    (he : Keeps P (edit e)) : Keeps P (perform a e) := he.bind fun ns => keeps_tellAll h ns

theorem keeps_create {a : Audience σ} (h : ∀ n, Keeps P (tell a n)) {type id position : Value}
    {fields : List (Key × Value)} (he : Keeps P (edit (Edit.create type id position fields))) :
    Keeps P (create a type id position fields) :=
  he.bind fun _ => (keeps_tellAll h _).bind fun _ => Keeps.pure _

theorem keeps_quietly {x : Act σ α} (hm : Keeps P (mute (σ := σ)))
    (hu : Keeps P (unmute (σ := σ))) (h : Keeps P x) : Keeps P (quietly x) := by
  refine hm.bind fun _ => (keeps_attempt h).bind fun r => hu.bind fun _ => ?_
  cases r with
  | ok x => exact Keeps.pure x
  | error e => exact Keeps.throw e

theorem keeps_deleteAll {a : Audience σ} (h : ∀ n, Keeps P (tell a n))
    (he : ∀ k, Keeps P (edit (σ := σ) (Edit.delete k false))) (ids : List Value) :
    Keeps P (deleteAll a ids) := by
  induction ids with
  | nil => exact Keeps.pure _
  | cons id ids ih =>
      refine (keeps_ofExcept _).bind fun k => Keeps.get.bind fun s => ?_
      dsimp only
      split
      · exact (keeps_perform h (he k)).bind fun _ => ih
      · exact ih

theorem keeps_clear {a : Audience σ} (h : ∀ n, Keeps P (tell a n))
    (he : ∀ k, Keeps P (edit (σ := σ) (Edit.delete k false))) : Keeps P (clear a) :=
  Keeps.get.bind fun _ => (keeps_ofExcept _).bind fun _ => keeps_deleteAll h he _

end

end Act

end Blockwork
