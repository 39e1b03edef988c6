import Blockwork.Proofs.Durable
import Blockwork.Proofs.Onward

/-!
# What does not depend on the store

An action is `Heedless` of the host when it comes to the same, apart from the host, on every host
that is in order.  What is called at a desk is heedless of it (`Heedless.call`), as long as the
archive of its sessions keeps what is put into it, or fails by failures of the store: an edit takes
effect, everybody hears of it, and the program is made anew, whether the workspace could be stored
or not.
-/

namespace Blockwork

variable {σ α β : Type}

/-- Whether an action comes to the same on all hosts that are in order, and leaves them in order,
where the audience is as it should be. -/
def Heedless (good : σ → Prop) (ok : Host → Prop) (x : Act σ α) : Prop :=
  ∀ (s : Scene σ) (host : Host), good s.audience → ok s.host → ok host → Ends x s
    (fun a t => good t.audience ∧ ok t.host ∧
      ∃ h, ok h ∧ x { s with host } = .ok a { t with host := h })
    fun e t => good t.audience ∧ ok t.host ∧
      ∃ h, ok h ∧ x { s with host } = .error e { t with host := h }

namespace Heedless

variable {good : σ → Prop} {ok : Host → Prop} {x : Act σ α}

theorem pure (a : α) : Heedless good ok (Pure.pure a : Act σ α) := fun _ host hg hs hh =>
  Ends.pure ⟨hg, hs, host, hh, rfl⟩

theorem throw (e : Error) : Heedless good ok (throw e : Act σ α) := fun _ host hg hs hh =>
  Ends.throw ⟨hg, hs, host, hh, rfl⟩

theorem bind {f : α → Act σ β} (h : Heedless good ok x) (k : ∀ a, Heedless good ok (f a)) :
    Heedless good ok (x >>= f) := fun s host hg hs hh => by
  refine Ends.bind ((h s host hg hs hh).mono (fun a t ht => ?_) fun e t ht => ?_)
  · obtain ⟨hg, hok, h', hh', hx⟩ := ht
    have hrest : (x >>= f) { s with host } = f a { t with host := h' } := by
      simp only [Bind.bind, EStateM.bind, hx]
    rw [hrest]
    exact k a t h' hg hok hh'
  · obtain ⟨hg, hok, h', hh', hx⟩ := ht
    exact ⟨hg, hok, h', hh', by simp only [Bind.bind, EStateM.bind, hx]⟩

theorem throw_bind (e : Error) (f : α → Act σ β) :
    Heedless good ok ((MonadExcept.throw e : Act σ α) >>= f) := fun _ host hg hs hh =>
  Ends.bind (Ends.throw ⟨hg, hs, host, hh, rfl⟩)

/-- What is done with the scene, the host apart. -/
theorem get_bind {f : Scene σ → Act σ β} (hf : ∀ s host, f { s with host } = f s)
    (h : ∀ s, good s.audience → Heedless good ok (f s)) : Heedless good ok (get >>= f) :=
  fun s host hg hs hh => by
    have hget : (get >>= f) { s with host } = f s { s with host } := by
      rw [← hf s host]
      rfl
    rw [hget]
    exact Ends.bind (Ends.get (h s hg s host hg hs hh))

/-- A change of the audience. -/
theorem modify {f : Scene σ → Scene σ} (hf : ∀ s host, f { s with host } = { f s with host })
    (hgood : ∀ s, good s.audience → good (f s).audience) :
    Heedless good ok (modify f : Act σ Unit) := fun s host hg hs hh => by
  have hhost := congrArg Scene.host (hf s s.host)
  change (f s).host = s.host at hhost
  exact Ends.modify ⟨hgood s hg, hhost.symm ▸ hs, host, hh, congrArg (EStateM.Result.ok ()) (hf s host)⟩

theorem skip {p : Prop} [Decidable p] {rest : Act σ β} (h : p → Heedless good ok x)
    (hr : Heedless good ok rest) : Heedless good ok (if p then x >>= fun _ => rest else rest) := by
  split
  · exact (h ‹_›).bind fun _ => hr
  · exact hr

theorem ofExcept (r : Except Error α) : Heedless good ok (Act.ofExcept r : Act σ α) := by
  cases r with
  | ok a => exact pure a
  | error e => exact throw e

theorem edit (e : Edit α) : Heedless good ok (Act.edit e : Act σ α) := fun s host hg hs hh => by
  unfold Ends Act.edit
  cases e s.workspace with
  | ok a w => exact ⟨hg, hs, host, hh, rfl⟩
  | error x w => exact ⟨hg, hs, host, hh, rfl⟩

section

variable (hok : ∀ {h h' : Host}, h.Noted h' → ok h → ok h')

include hok

theorem note (level : Level) (area : Area) (text : String) :
    Heedless good ok (Act.note (σ := σ) level area text) := fun _ host hg hs hh =>
  Ends.modify ⟨hg, hok ((Host.Noted.refl _).note _ _ _) hs, host.note level area text,
    hok ((Host.Noted.refl _).note _ _ _) hh, rfl⟩

/-! ### Highlights -/

theorem announce (h : Highlighter) (kind : Glow.Kind) (id colour : Value) :
    Heedless (fun _ => True) ok (h.announce kind id colour) := by
  refine bind (modify (fun _ _ => rfl) fun _ h => h) fun _ s host hg hs hh => ?_
  have repeated (text : String) (g : Host) (hg : ok g) :
      ok (Nat.repeat (·.note .error .highlighter text) h.faulty g) := by
    induction h.faulty with
    | zero => exact hg
    | succ n ih => exact hok ((Host.Noted.refl _).note _ _ _) ih
  exact Ends.modify ⟨hg, repeated _ _ hs, _, repeated _ _ hh, rfl⟩

theorem restore (h : Highlighter) (id : Value) :
    Heedless (fun _ => True) ok (h.restore id) := by
  refine (ofExcept _).bind fun k => get_bind (fun _ _ => rfl) fun s _ => ?_
  split
  · exact pure _
  · exact (edit _).bind fun _ => (announce hok h _ _ _).bind fun _ => pure _

theorem restoreAll (h : Highlighter) : Heedless (fun _ => True) ok h.restoreAll := by
  have each (ks : List Key) : Heedless (fun _ => True) ok (h.restoreEach ks) := by
    induction ks with
    | nil => exact pure _
    | cons k ks ih =>
        refine get_bind (fun _ _ => rfl) fun s _ => ?_
        split
        · exact ih
        · exact (restore hok h _).bind fun _ => ih.bind fun _ => pure _
  exact get_bind (fun _ _ => rfl) fun _ _ => each _

end

/-! ### Telling -/

section

variable {a : Audience σ} (ha : ∀ c, Heedless good ok (a.hear c))

include ha

theorem tell (n : Notice) : Heedless good ok (Act.tell a n) := by
  refine get_bind (fun _ _ => rfl) fun s _ => ?_
  dsimp only
  split
  · exact (ha _).bind fun _ => pure _
  · exact pure _

theorem tellAll (ns : List Notice) : Heedless good ok (Act.tellAll a ns) := by
  induction ns with
  | nil => exact pure _
  | cons n ns ih => exact (tell ha n).bind fun _ => ih

theorem perform (e : Edit (List Notice)) : Heedless good ok (Act.perform a e) :=
  (edit e).bind fun ns => tellAll ha ns

theorem deleteAll (ids : List Value) : Heedless good ok (Act.deleteAll a ids) := by
  induction ids with
  | nil => exact pure _
  | cons id ids ih =>
      refine (ofExcept _).bind fun k => get_bind (fun _ _ => rfl) fun s _ => ?_
      split
      · exact (perform ha _).bind fun _ => ih
      · exact ih

theorem clear : Heedless good ok (Act.clear a) :=
  get_bind (fun _ _ => rfl) fun _ _ => (ofExcept _).bind fun _ => deleteAll ha _

end

end Heedless

/-! ### Sessions -/

/-- Whether the sessions of a desk keep their workspaces in an archive. -/
def Desk.Uses (archive : Archive) (d : Desk) : Prop := ∀ q ∈ d.sessions, q.archive = archive

theorem Desk.Uses.update {archive : Archive} {d : Desk} (h : d.Uses archive) (number : Nat)
    {f : Session → Session} (hf : ∀ q : Session, (f q).archive = q.archive) :
    (d.updateSession number f).Uses archive := by
  intro q hq
  obtain ⟨i, hi⟩ := List.mem_iff_getElem?.mp (show q ∈ d.sessions.modify number f from hq)
  rw [List.getElem?_modify] at hi
  obtain ⟨q', hq', rfl⟩ := Option.map_eq_some_iff.mp hi
  have harchive := h q' (List.mem_of_getElem? hq')
  split
  · exact (hf q').trans harchive
  · exact harchive

namespace Heedless

variable {ok : Host → Prop} {archive : Archive}

section

theorem traced (number : Nat) {r : Run α} (h : Heedless (fun _ => True) ok r) :
    Heedless (Desk.Uses archive) ok (Act.traced number r) := fun s host hg hs hh => by
  have hr := h { s with audience := s.audience.trace number } host trivial hs hh
  have huses (t : Trace) : (s.audience.withTrace number t).Uses archive :=
    (hg.update number (f := fun s => { s with output := { s.output with lines := t.lines } })
      fun _ => rfl)
  unfold Ends at hr ⊢
  unfold Act.traced
  cases hx : r { s with audience := s.audience.trace number } with
  | ok a t =>
      rw [hx] at hr
      obtain ⟨-, hok, h', hh', hx⟩ := hr
      exact ⟨huses _, hok, h', hh', by simp only [hx]⟩
  | error e t =>
      rw [hx] at hr
      obtain ⟨-, hok, h', hh', hx⟩ := hr
      exact ⟨huses _, hok, h', hh', by simp only [hx]⟩

theorem session?_bind {number : Nat} {f : Option Session → Act Desk β}
    (h : ∀ q, (∀ q' ∈ q, q'.archive = archive) → Heedless (Desk.Uses archive) ok (f q)) :
    Heedless (Desk.Uses archive) ok (Act.session? number >>= f) :=
  get_bind (f := fun s => f s.audience.sessions[number]?) (fun _ _ => rfl) fun _ hs =>
    h _ fun _ hq => hs _ (List.mem_of_getElem? hq)

variable (hl : archive.Lenient ok)

include hl

/-- Storing the workspace, whether it succeeds or not. -/
theorem save (number : Nat) : Heedless (Desk.Uses archive) ok (Session.save number) := by
  intro s host hg hs hh
  cases hq : s.audience.sessions[number]? with
  | none =>
      have hnone (s : Scene Desk) (hq : s.audience.sessions[number]? = none) :
          Session.save number s = .ok () s := by
        have hends : Ends (Session.save number) s (fun _ t => t = s) fun _ _ => False := by
          unfold Session.save
          refine Ends.bind (Ends.bind (Ends.get (Ends.pure ?_)))
          rw [hq]
          exact Ends.pure rfl
        obtain ⟨_, t, ht, rfl⟩ := hends.exists_ok
        exact ht
      exact (Ends.of_ok (hnone s hq)).mpr ⟨hg, hs, host, hh, hnone { s with host } hq⟩
  | some q =>
      have harchive := hg q (List.mem_of_getElem? hq)
      have hthere := Session.ends_save_text hl hq harchive hs
      have hhere := Session.ends_save_text (s := { s with host }) hl hq harchive hh
      unfold Ends at hthere hhere ⊢
      cases hx : Session.save number s with
      | ok a t =>
          rw [hx] at hthere
          obtain ⟨hok, ht, htext⟩ := hthere
          cases hy : Session.save number { s with host } with
          | ok b u =>
              rw [hy] at hhere
              obtain ⟨hok', hu, -⟩ := hhere
              refine ⟨ht ▸ hg, hok, u.host, hok', ?_⟩
              rw [ht, hu]
          | error e u =>
              rw [hy] at hhere
              obtain ⟨-, he, hfailure⟩ := hhere
              cases hfailure.symm.trans (htext e he)
      | error e t =>
          rw [hx] at hthere
          obtain ⟨rfl, he, hfailure⟩ := hthere
          cases hy : Session.save number { t with host } with
          | ok b u =>
              rw [hy] at hhere
              obtain ⟨-, -, htext⟩ := hhere
              cases hfailure.symm.trans (htext e he)
          | error e' u =>
              rw [hy] at hhere
              obtain ⟨rfl, he', -⟩ := hhere
              cases he.symm.trans he'
              exact ⟨hg, hs, host, hh, rfl⟩

theorem runCode (number : Nat) : Heedless (Desk.Uses archive) ok (Session.runCode number) := by
  unfold Session.runCode
  refine get_bind (fun _ _ => rfl) fun s _ => ?_
  split
  · exact throw_bind _ _
  · refine session?_bind fun q hq => ?_
    cases q with
    | none => exact pure _
    | some q =>
        have next (d : Desk) (hd : d.Uses archive) :
            (d.updateSession number ({ · with generation := q.generation + 1 })).Uses archive :=
          hd.update number fun _ => rfl
        refine bind (modify (fun _ _ => rfl) fun s hs => next _ hs) fun _ => ?_
        refine skip (fun _ => traced number (restoreAll hl.noted _)) ?_
        refine get_bind (fun _ _ => rfl) fun s _ => ?_
        split
        · refine bind (modify (fun _ _ => rfl) fun s hs => ?_) fun _ => pure _
          exact hs.update number fun _ => rfl
        · split
          · exact (note hl.noted _ _ _).bind fun _ => pure _
          · exact throw _

theorem hear (number : Nat) (c : Change) :
    Heedless (Desk.Uses archive) ok (Session.hear number c) := by
  unfold Session.hear
  refine skip (fun _ => save hl number) ?_
  split
  · exact (runCode hl number).bind fun _ => pure _
  · exact pure _

theorem audience (c : Change) : Heedless (Desk.Uses archive) ok (Desk.audience.hear c) := by
  have each (n : Nat) (c : Change) : Heedless (Desk.Uses archive) ok ((Desk.hearing n).hear c) := by
    induction n generalizing c with
    | zero => exact throw _
    | succ n ih =>
        have all (es : List (Edit (List Notice))) :
            Heedless (Desk.Uses archive) ok (Desk.performAll (Desk.hearing n) es) := by
          induction es with
          | nil => exact pure _
          | cons e es ihes => exact (perform ih e).bind fun _ => ihes
        refine get_bind (fun _ _ => rfl) fun s _ => ?_
        generalize s.audience.listeners = ls
        induction ls with
        | nil => exact pure _
        | cons l ls ihls =>
            cases l with
            | guest g =>
                refine bind (modify (fun _ _ => rfl) fun _ hs => hs) fun _ => ?_
                exact get_bind (fun _ _ => rfl) fun _ _ => (all _).bind fun _ => ihls
            | session m => exact (hear hl m c).bind fun _ => ihls
  exact get_bind (fun _ _ => rfl) fun _ _ => each _ c

/-- **What a call does, whether the workspace can be stored or not.** -/
theorem call {w : Workspace} {c : Call} (hc : c.Onward w) :
    Heedless (Desk.Uses archive) ok (c.act Desk.audience) := by
  have ha := audience hl
  cases c with
  | create type id position fields =>
      exact bind ((edit _).bind fun _ => (tellAll ha _).bind fun _ => pure _) fun _ => pure _
  | command c => exact perform ha _
  | clear => exact clear ha
  | load => exact hc.elim

end

end Heedless

end Blockwork
