import Blockwork.Proofs.Idling
import Blockwork.Proofs.Telling

/-!
# Listeners who attend to every change

One session hears of the changes of a workspace, and guests who answer what they hear with edits of
their own, as far as these can be done (`Guest.Polite`).  What the session does on a change that has
weight, and what it does on any other one, decides what holds of the desk whenever everybody has been
told (`Scene.Settles`): it holds after each change that is told, however deep guests answer edits with
edits, and also when somebody fails on the way (`Scene.Settles.hearing`).
-/

namespace Blockwork

/-! ### Guests -/

/-- An edit that is left alone where it fails. -/
def Edit.tried (e : Edit (List Notice)) : Edit (List Notice) := fun w =>
  match e w with
  | .ok ns w => .ok ns w
  | .error _ w => .ok [] w

/-- Whether an edit is a command or the creation of a block, under an id that may be given in a
workspace, which is left alone where it fails. -/
inductive Edit.Answers (w : Workspace) : Edit (List Notice) → Prop where
  | command (c : Command) : Answers w c.edit.tried
  | create {type id position : Value} {fields : List (Key × Value)} : w.Admits id →
      Answers w ((·.2) <$> Edit.create type id position fields).tried

/-- Whether a guest answers what he hears with edits that fail nobody. -/
def Guest.Polite (g : Guest) : Prop := ∀ c w, ∀ e ∈ g.respond c w, Edit.Answers w e

namespace Edit

variable {w u : Workspace} {e : Edit (List Notice)}

theorem ends_tried (h : Ends e w w.Becomes fun _ w' => w' = w) (hw : w.Steady) :
    Ends e.tried w w.Becomes fun _ _ => False := by
  unfold Ends tried at *
  cases he : e w with
  | ok ns w' => rw [he] at h; exact h
  | error x w' =>
      rw [he] at h
      obtain rfl := h
      exact ⟨.nothing, hw.sound.later, hw⟩

/-- An answer to what was heard a while ago. -/
theorem Answers.ends (h : Answers u e) (hw : w.Steady) (hc : u.created ≤ w.created) :
    Ends e w w.Becomes fun _ _ => False := by
  cases h with
  | command c => exact ends_tried (hw.ends_command c) hw
  | create hid => exact ends_tried (Ends.map (hw.ends_create (hid.mono hc))) hw

end Edit

/-! ### What stays the same -/

/-- What stays the same at a desk: where its session stores the workspace and how it makes a program
of it, who listens, whether there is an event loop, a number that the newest cycle has, or an older
one, and what is known of the host. -/
structure Fixture where
  archive : Archive
  compiler : Compiler
  listeners : List Listener
  loop : Bool
  newest : Nat
  host : Host → Prop

/-- Whether the session of a desk listens, and nobody besides but polite guests. -/
structure Fixture.Attended (f : Fixture) : Prop where
  attached : .session 0 ∈ f.listeners
  company : ∀ l ∈ f.listeners, l = .session 0 ∨ ∃ g, l = .guest g ∧ g.Polite
  noted : ∀ {h h' : Host}, h.Noted h' → f.host h → f.host h'

/-- The same where there is an event loop or none. -/
def Fixture.looped (f : Fixture) (loop : Bool) : Fixture := { f with loop }

theorem Fixture.Attended.looped {f : Fixture} (h : f.Attended) (loop : Bool) :
    (f.looped loop).Attended := ⟨h.attached, h.company, h.noted⟩

theorem Act.tellAll_append {σ : Type} (a : Audience σ) (ns ms : List Notice) :
    tellAll a (ns ++ ms) = tellAll a ns >>= fun _ => tellAll a ms := by
  induction ns with
  | nil => rfl
  | cons n ns ih => simp only [List.cons_append, tellAll, ih, bind_assoc]

namespace Scene

/-- Whether a desk is as it was set up, and its workspace is sound; so many blocks have been created
at least. -/
structure Ready (f : Fixture) (muted created : Nat) (s : Scene Desk) : Prop where
  sound : s.workspace.Sound
  minted : s.workspace.Minted
  placed : s.workspace.Placed
  muted : s.workspace.muted = muted
  created : created ≤ s.workspace.created
  sessions : ∃ q, s.audience.sessions = [q] ∧ q.archive = f.archive ∧ q.compiler = f.compiler
  listeners : s.audience.listeners = f.listeners
  loop : s.audience.loop = f.loop
  newest : f.newest ≤ s.newest
  upTo : s.UpTo
  host : f.host s.host

variable {f : Fixture} {m n : Nat} {s t : Scene Desk}

namespace Ready

theorem steady (h : s.Ready f 0 n) : s.workspace.Steady := ⟨h.sound, h.minted, h.placed, h.muted⟩

theorem now (h : s.Ready f m n) : s.Ready f m s.workspace.created := { h with created := Nat.le_refl _ }

theorem since (h : s.Ready f m n) {n' : Nat} (hn : n' ≤ n) : s.Ready f m n' :=
  { h with created := hn.trans h.created }

theorem edited (h : s.Ready f m n) {w : Workspace} (hl : s.workspace.Later w) (hp : w.Placed)
    (hm : w.muted = m) : ({ s with workspace := w } : Scene Desk).Ready f m n :=
  { h with
    sound := hl.sound
    minted := hl.minted h.minted
    placed := hp
    muted := hm
    created := h.created.trans hl.created }

theorem becomes (h : s.Ready f 0 n) {ns : List Notice} {w : Workspace}
    (hw : s.workspace.Becomes ns w) : ({ s with workspace := w } : Scene Desk).Ready f 0 n :=
  h.edited hw.later hw.steady.placed hw.steady.told

theorem elsewhere (h : s.Ready f m n) {host : Host} (hh : f.host host) :
    ({ s with host } : Scene Desk).Ready f m n := { h with host := hh }

theorem heard (h : s.Ready f m n) (heard : Array (Nat × Change)) :
    ({ s with audience := { s.audience with heard } } : Scene Desk).Ready f m n :=
  { h with }

theorem drifts (h : s.Ready f m n) (hf : f.Attended) (ht : s.Drifts t) : t.Ready f m n := by
  have hl := ht.workspace.later h.sound
  obtain ⟨q, hq, harchive, hcompiler⟩ := h.sessions
  obtain ⟨q', hq', harchive', hcompiler'⟩ := ht.sessions q hq
  exact {
    sound := hl.sound
    minted := hl.minted h.minted
    placed := ht.workspace.placed h.placed
    muted := ht.workspace.gesture_eq.2.trans h.muted
    created := h.created.trans hl.created
    sessions := ⟨q', hq', harchive'.trans harchive, hcompiler'.trans hcompiler⟩
    listeners := ht.listeners.trans h.listeners
    loop := ht.loop.trans h.loop
    newest := h.newest.trans ht.newest
    upTo := ht.upTo h.upTo
    host := hf.noted ht.host h.host }

theorem idles (h : s.Ready f m n) (hf : f.Attended) (ht : s.Idles t) : t.Ready f m n := by
  obtain ⟨q, hq, -⟩ := h.sessions
  exact h.drifts hf (ht.drifts hq)

end Ready

/-! ### What holds whenever everybody has been told -/

/-- The error of an answer to an answer to an answer, and so on for too long. -/
def tooDeep : Error := .failure .tooDeep

/-- Whether what the session does on a change settles something, if the change has weight, and leaves
it settled in any case; an error settles it too.  What is not settled by a change without weight is
settled already when that is told. -/
structure Settles (f : Fixture) (S : Scene Desk → Prop) (weighty : Change → Prop) : Prop where
  hears : ∀ {n : Nat} {s : Scene Desk} (c : Change), s.Ready f 0 n → Ends (Session.hear 0 c) s
    (fun _ t => t.Ready f 0 n ∧ (weighty c ∨ S s → S t)) fun _ t => t.Ready f 0 n ∧ S t
  raised : ∀ {n : Nat} {s : Scene Desk} {m : Notice}, s.Ready f 0 n → m.Tells →
    weighty (Act.changeOf s.workspace m) ∨ S s
  noted : ∀ {s : Scene Desk} (heard : Array (Nat × Change)), S s →
    S { s with audience := { s.audience with heard } }
  dragged : ∀ {s : Scene Desk}, S s →
    S { s with workspace := { s.workspace with dragging := true } }

/-- Whether a property of desks holds once something is settled, and is kept by changes of the
view. -/
structure Inert (S X : Scene Desk → Prop) : Prop where
  settled : ∀ {s : Scene Desk}, S s → X s
  noted : ∀ {s : Scene Desk} (seat : Nat) {c : Change}, c.isView = true → X s →
    X { s with audience := { s.audience with heard := s.audience.heard.push (seat, c) } }
  dragged : ∀ {s : Scene Desk}, X s →
    X { s with workspace := { s.workspace with dragging := true } }

/-- Where an error comes out of the audience, that of too deep answers apart, something is settled. -/
def Halts (f : Fixture) (S : Scene Desk → Prop) (n : Nat) (e : Error) (t : Scene Desk) : Prop :=
  t.Ready f 0 n ∧ (e ≠ tooDeep → S t)

/-- Whether something is settled whenever an audience has been told of a change. -/
structure Settling (f : Fixture) (S : Scene Desk → Prop) (weighty : Change → Prop)
    (a : Audience Desk) : Prop where
  tells : ∀ {n : Nat} {s : Scene Desk} {c : Change}, c.isView = false → s.Ready f 0 n →
    weighty c ∨ S s → Ends (a.hear c) s (fun _ t => t.Ready f 0 n ∧ S t) (Halts f S n)
  views : ∀ {n : Nat} {s : Scene Desk} {c : Change} {X : Scene Desk → Prop}, Inert S X →
    c.isView = true → s.Ready f 0 n → X s →
    Ends (a.hear c) s (fun _ t => t.Ready f 0 n ∧ X t) (Halts f S n)

section

variable {S X : Scene Desk → Prop} {weighty : Change → Prop}

theorem Settles.inert (h : Settles f S weighty) : Inert S S := ⟨id, fun _ _ _ => h.noted _, h.dragged⟩

theorem inert_true : Inert S fun _ => True := ⟨fun _ => trivial, fun _ _ _ _ => trivial, fun _ => trivial⟩

/-! ### Telling -/

namespace Settling

variable {a : Audience Desk} (ha : Settling f S weighty a) (h : Settles f S weighty)

include ha

theorem ends_tell_view (hX : Inert S X) {m : Notice} (hm : m.kind.isView = true)
    (hs : s.Ready f 0 n) (hx : X s) :
    Ends (Act.tell a m) s (fun _ t => t.Ready f 0 n ∧ X t) (Halts f S n) := by
  refine Ends.bind (Ends.get ?_)
  dsimp only
  rw [if_pos hs.muted]
  exact Ends.bind ((ha.views (c := Act.changeOf s.workspace m) hX hm hs hx).mono
    (fun _ _ ht => Ends.pure ht) fun _ _ ht => ht)

theorem ends_views (hX : Inert S X) {ns : List Notice} (hns : ∀ m ∈ ns, m.kind.isView = true)
    (hs : s.Ready f 0 n) (hx : X s) :
    Ends (Act.tellAll a ns) s (fun _ t => t.Ready f 0 n ∧ X t) (Halts f S n) := by
  induction ns generalizing s with
  | nil => exact Ends.pure ⟨hs, hx⟩
  | cons m ns ih =>
      rw [List.forall_mem_cons] at hns
      exact Ends.bind ((ha.ends_tell_view hX hns.1 hs hx).mono (fun _ _ ht => ih hns.2 ht.1 ht.2)
        fun _ _ ht => ht)

include h

theorem ends_tell_change {m : Notice} (hm : m.Tells) (hs : s.Ready f 0 n) :
    Ends (Act.tell a m) s (fun _ t => t.Ready f 0 n ∧ S t) (Halts f S n) := by
  refine Ends.bind (Ends.get ?_)
  dsimp only
  rw [if_pos hs.muted]
  exact Ends.bind ((ha.tells (c := Act.changeOf s.workspace m) hm.1 hs (h.raised hs hm)).mono
    (fun _ _ ht => Ends.pure ht) fun _ _ ht => ht)

/-- **What has been done is settled once it is told.**  What only is another view leaves things as
they are. -/
theorem ends_tellAll (hX : Inert S X) {ns : List Notice} {w : Workspace}
    (hw : s.workspace.Becomes ns w) (hs : s.Ready f 0 n) (hx : X s) :
    Ends (Act.tellAll a ns) { s with workspace := w }
      (fun _ t => t.Ready f 0 n ∧ X t ∧ ((∃ m ∈ ns, m.kind.isView = false) → S t))
      (Halts f S n) := by
  have hready := hs.becomes hw
  have hnone {ns : List Notice} (hns : ∀ m ∈ ns, m.kind.isView = true) (t : Scene Desk)
      (hm : ∃ m ∈ ns, m.kind.isView = false) : S t := by
    obtain ⟨m, hm, hview⟩ := hm
    rw [hns m hm] at hview
    cases hview
  cases hw.told with
  | nothing => exact Ends.pure ⟨hs, hx, hnone (List.forall_mem_nil _) _⟩
  | dragged hns =>
      exact (ha.ends_views hX hns hready (hX.dragged hx)).mono
        (fun _ t ht => ⟨ht.1, ht.2, hnone hns t⟩) fun _ _ ht => ht
  | @changed ns m _ hns hm =>
      -- views told on the way are of no account, since the change comes last
      rw [Act.tellAll_append]
      refine Ends.bind ((ha.ends_views inert_true hns hready trivial).mono (fun _ t ht => ?_)
        fun _ _ ht => ht)
      exact Ends.bind ((ha.ends_tell_change h hm ht.1).mono
        (fun _ u hu => Ends.pure ⟨hu.1, hX.settled hu.2, fun _ => hu.2⟩) fun _ _ hu => hu)

/-- The edits with which a guest answers. -/
theorem ends_performAll (hX : Inert S X) {u : Workspace} {es : List (Edit (List Notice))}
    (hes : ∀ e ∈ es, Edit.Answers u e) (hs : s.Ready f 0 u.created) (hx : X s) :
    Ends (Desk.performAll a es) s (fun _ t => t.Ready f 0 u.created ∧ X t)
      (Halts f S u.created) := by
  induction es generalizing s with
  | nil => exact Ends.pure ⟨hs, hx⟩
  | cons e es ih =>
      rw [List.forall_mem_cons] at hes
      refine Ends.bind (Ends.bind (Act.ends_edit ((hes.1.ends hs.steady hs.created).mono
        (fun ns w hw => ?_) fun _ _ he => he.elim)))
      exact (ha.ends_tellAll h hX hw hs hx).mono (fun _ t ht => ih hes.2 ht.1 ht.2.1) fun _ _ ht => ht

/-- Listeners are told one after the other.  Once the session has been told something is settled that
need not have been before. -/
theorem ends_tellEach {c : Change} {Y : Scene Desk → Prop} (hX : Inert S X)
    (hY : Inert S Y) (hYX : ∀ {s : Scene Desk}, Y s → X s)
    (notedX : ∀ {s : Scene Desk} (seat : Nat), X s →
      X { s with audience := { s.audience with heard := s.audience.heard.push (seat, c) } })
    (notedY : ∀ {s : Scene Desk} (seat : Nat), Y s →
      Y { s with audience := { s.audience with heard := s.audience.heard.push (seat, c) } })
    (hears : ∀ {s : Scene Desk}, s.Ready f 0 n → X s → Ends (Session.hear 0 c) s
      (fun _ t => t.Ready f 0 n ∧ Y t) fun _ t => t.Ready f 0 n ∧ S t)
    {ls : List Listener} (hl : ∀ l ∈ ls, l = .session 0 ∨ ∃ g, l = .guest g ∧ g.Polite)
    (hs : s.Ready f 0 n) (hx : X s) :
    Ends (Desk.tellEach a c ls) s
      (fun _ t => t.Ready f 0 n ∧ X t ∧ (.session 0 ∈ ls → Y t)) (Halts f S n) := by
  induction ls generalizing s X with
  | nil => exact Ends.pure ⟨hs, hx, fun hm => nomatch hm⟩
  | cons l ls ih =>
      rw [List.forall_mem_cons] at hl
      rcases hl.1 with rfl | ⟨g, rfl, hg⟩
      · refine Ends.bind ((hears hs hx).mono (fun _ t ht => ?_) fun _ t ht => ⟨ht.1, fun _ => ht.2⟩)
        -- from here on it stays settled
        exact (ih hY id notedY (fun ht hy => hears ht (hYX hy)) hl.2 ht.1 ht.2).mono
          (fun _ u hu => ⟨hu.1, hYX hu.2.1, fun _ => hu.2.1⟩) fun _ _ hu => hu
      · refine Ends.bind (Ends.modify (Ends.bind (Ends.get ?_)))
        have hready := (hs.heard (s.audience.heard.push (g.seat, c))).now
        refine Ends.bind ((ha.ends_performAll h hX (hg c s.workspace) hready (notedX g.seat hx)).mono
          (fun _ t ht => ?_) fun _ t ht => ⟨ht.1.since hs.created, ht.2⟩)
        refine (ih hX hYX notedX hears hl.2 (ht.1.since hs.created) ht.2).mono
          (fun _ u hu => ⟨hu.1, hu.2.1, fun hm => hu.2.2 ?_⟩) fun _ _ hu => hu
        exact (List.mem_cons.mp hm).resolve_left Listener.noConfusion

end Settling

/-! ### However deep guests answer -/

namespace Settles

variable (h : Settles f S weighty) (hf : f.Attended)

include h hf

/-- **However deep guests answer edits with edits.** -/
theorem settling_hearing (k : Nat) : Settling f S weighty (Desk.hearing k) := by
  induction k with
  | zero =>
      exact ⟨fun _ hs _ => Ends.throw ⟨hs, fun he => absurd rfl he⟩,
        fun _ _ hs _ => Ends.throw ⟨hs, fun he => absurd rfl he⟩⟩
  | succ k ih =>
      refine ⟨fun {n s c} hc hs hq => ?_, fun {n s c X} hX hc hs hx => ?_⟩
      · refine Ends.bind (Ends.get ?_)
        -- what the session settles is settled already, or the change has weight for it
        have hX : Inert S fun s => weighty c ∨ S s :=
          ⟨.inr, fun _ _ _ hs => hs.imp_right (h.noted _), fun hs => hs.imp_right h.dragged⟩
        refine (ih.ends_tellEach h hX h.inert .inr (fun _ hs => hs.imp_right (h.noted _))
          (fun _ => h.noted _) (fun hs hx => (h.hears c hs).mono (fun _ t ht => ⟨ht.1, ht.2 hx⟩)
            fun _ _ ht => ht) (hs.listeners ▸ hf.company) hs hq).mono (fun _ t ht => ?_)
          fun _ _ ht => ht
        exact ⟨ht.1, ht.2.2 (hs.listeners ▸ hf.attached)⟩
      · refine Ends.bind (Ends.get ?_)
        have still {s : Scene Desk} (hs : s.Ready f 0 n) (hx : X s) : Ends (Session.hear 0 c) s
            (fun _ t => t.Ready f 0 n ∧ X t) fun _ t => t.Ready f 0 n ∧ S t := by
          unfold Session.hear Change.warrantsSave Change.warrantsCycle
          rw [hc]
          exact Ends.pure ⟨hs, hx⟩
        exact (ih.ends_tellEach h hX hX id (fun seat hx => hX.noted seat hc hx)
          (fun seat hx => hX.noted seat hc hx) still (hs.listeners ▸ hf.company) hs hx).mono
          (fun _ t ht => ⟨ht.1, ht.2.1⟩) fun _ _ ht => ht

theorem settling : Settling f S weighty Desk.audience where
  tells hc hs hq := Ends.bind (Ends.get ((h.settling_hearing hf _).tells hc hs hq))
  views hX hc hs hx := Ends.bind (Ends.get ((h.settling_hearing hf _).views hX hc hs hx))

end Settles

end

end Scene

end Blockwork
