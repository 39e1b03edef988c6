import Mathlib
import Blockwork.Proofs.Matching
import Blockwork.Proofs.Singles

/-!
# Loading

Loading is all or nothing (`History.all_or_nothing`).  Without a text that can be found the
workspace stays as it was.  With one, the workspace is emptied, and what is built then is either
kept, and depends on the text and the vocabulary only, or it is removed to the last block; the
audience is told of nothing but the end of loading, and only in the first case.

What is built before something turns out not to be in order is sound at every point, so that
emptying it leaves no block (`Archive.ends_load_text`).
-/

namespace Blockwork

variable {σ α : Type}

/-! ### Quiet actions -/

/-- A scene in which changes are kept from the audience a number of times. -/
def Scene.hushed (s : Scene σ) (muted : Nat) : Scene σ :=
  { s with workspace := { s.workspace with muted } }

theorem Act.ends_quietly {x : Act σ α} {s : Scene σ} {good : α → Scene σ → Prop}
    {bad : Error → Scene σ → Prop}
    (h : Ends x (s.hushed (s.workspace.muted + 1))
      (fun a t => good a (t.hushed (t.workspace.muted - 1)))
      fun e t => bad e (t.hushed (t.workspace.muted - 1))) : Ends (quietly x) s good bad :=
  Ends.bind (Ends.modify (Ends.bind (ends_attempt (h.mono
    (fun _ _ ht => Ends.bind (Ends.modify (Ends.pure ht)))
    fun _ _ ht => Ends.bind (Ends.modify (Ends.throw ht))))))

theorem Act.keeps_tell_muted {P : Scene σ → Prop} (hm : ∀ s, P s → s.workspace.muted ≠ 0)
    {a : Audience σ} (n : Notice) : Keeps P (tell a n) := fun s hs => by
  refine Ends.bind (Ends.get ?_)
  dsimp only
  rw [if_neg (hm s hs)]
  exact Ends.pure hs

namespace Archive

variable {a : Audience σ} {archive : Archive} {text : String} {s : Scene σ}

/-- What is done once a text is found. -/
theorem ends_load_found {host : Host} {good : Bool → Scene σ → Prop} {bad : Error → Scene σ → Prop}
    (hf : archive.slots.get archive.key s.host = .ok (some text) host)
    (h : Ends (Act.quietly (archive.replace a text)) { s with host }
      (fun restored t => if restored then Ends (do
          let size := (← get).workspace.size
          Act.note .info .persistence
            ("Restored " ++ Decimal.integer size ++ " blocks from '" ++ archive.key.display ++ "'")
          let _ ← Act.tell a { kind := .finishedLoading }
          return true) t good bad
        else good false t) bad) : Ends (archive.load a) s good bad := by
  unfold load
  refine Ends.bind (Act.ends_attempt (Act.ends_onHost ?_))
  rw [Ends.of_ok hf]
  refine Ends.bind (h.mono (fun restored t ht => ?_) fun _ _ ht => ht)
  cases restored with
  | true => exact ht
  | false => exact Ends.pure ht

theorem ends_replace {good : Bool → Scene σ → Prop} {bad : Error → Scene σ → Prop}
    (h : Ends (Act.clear a) s (fun _ t => Ends (restore a text) t (fun _ u => good true u)
      fun e u => if isUnreadable e then Ends (do
          Act.note .warning .persistence
            ("Ignoring saved workspace '" ++ archive.key.display ++ "': " ++ e.display)
          Act.clear a
          return false) u good bad
        else bad e u) bad) : Ends (archive.replace a text) s good bad := by
  refine Ends.bind (h.mono (fun _ t ht => ?_) fun _ _ ht => ht)
  refine Ends.bind (Act.ends_attempt (ht.mono (fun _ _ hu => Ends.pure hu) fun e u hu => ?_))
  dsimp only
  split at hu
  · rename_i hr
    rw [if_pos hr]
    exact hu
  · rename_i hr
    rw [if_neg hr]
    exact Ends.throw hu

end Archive

/-! ### Names that are given anew -/

/-- Whether two names are the same, or the ones of blocks that are given names by two counters. -/
inductive Corresponds (m n : Nat) : String → String → Prop where
  | same {x : String} : x ≠ "" → (∀ i, m < i → x ≠ Workspace.mint i) →
      (∀ i, n < i → x ≠ Workspace.mint i) → Corresponds m n x x
  | minted (i : Nat) : Corresponds m n (Workspace.mint (m + i + 1)) (Workspace.mint (n + i + 1))

theorem oneToOne_corresponds (m n : Nat) : OneToOne (Corresponds m n) where
  left h h' := by
    cases h with
    | same _ _ hn =>
        cases h' with
        | same => rfl
        | minted i => exact absurd rfl (hn _ (by omega))
    | minted i =>
        generalize hy : Workspace.mint (n + i + 1) = y at h'
        cases h' with
        | same _ _ hn => exact absurd hy.symm (hn _ (by omega))
        | minted j =>
            have := Workspace.mint_injective hy
            rw [show i = j by omega]
  right h h' := by
    cases h with
    | same _ hm _ =>
        cases h' with
        | same => rfl
        | minted i => exact absurd rfl (hm _ (by omega))
    | minted i =>
        generalize hx : Workspace.mint (m + i + 1) = x at h'
        cases h' with
        | same _ hm _ => exact absurd hx.symm (hm _ (by omega))
        | minted j =>
            have := Workspace.mint_injective hx
            rw [show i = j by omega]
  nonempty h := by
    cases h with
    | same hne => exact ⟨hne, hne⟩
    | minted i => exact ⟨Workspace.mint_ne_empty _, Workspace.mint_ne_empty _⟩

/-! ### Workspaces that were emptied -/

namespace Workspace

variable {g h w u : Workspace}

/-- Whether a workspace is what is left of another one that was muted and emptied. -/
structure Emptied (g w : Workspace) : Prop where
  empty : ∀ k, w.find? k = none
  vocabulary : w.vocabulary = g.vocabulary
  muted : w.muted = g.muted + 1
  created : g.created ≤ w.created

/-- What loading relies on in a workspace. -/
structure Steady (w : Workspace) : Prop where
  sound : w.Sound
  minted : w.Minted
  placed : w.Placed
  told : w.muted = 0

namespace Emptied

theorem sound (hw : g.Emptied w) (hg : g.Sound) : w.Sound :=
  Sound.of_empty (hw.vocabulary ▸ hg.worded) hw.empty

theorem minted (hw : g.Emptied w) : w.Minted := fun _ _ => hw.empty _

theorem entries_eq (hw : g.Emptied w) : w.entries = [] :=
  List.eq_nil_iff_forall_not_mem.mpr fun e he =>
    nomatch (find?_of_mem_entries he).symm.trans (hw.empty e.1)

/-- Workspaces of one vocabulary are twins once they are emptied. -/
theorem twins (hw : g.Emptied w) (hu : h.Emptied u) (hv : g.vocabulary = h.vocabulary)
    (hm : g.muted = h.muted) : w.Twins (Corresponds w.created u.created) u where
  vocabulary := by rw [hw.vocabulary, hu.vocabulary, hv]
  muted := by rw [hw.muted, hu.muted, hm]
  entries := by rw [hw.entries_eq, hu.entries_eq]; exact .nil
  mints := .minted

/-- What may be given to blocks of both goes together with itself. -/
theorem twin_self (hw : g.Emptied w) (hu : h.Emptied u) {id : Value} (hg : g.Admits id)
    (hh : h.Admits id) : Value.Twin (Corresponds w.created u.created) id id := by
  rcases hg with rfl | ⟨x, rfl, hne, hx⟩
  · exact .null
  · rcases hh with hnull | ⟨y, hy, -, hy'⟩
    · cases hnull
    · cases hy
      exact .text (.same hne (fun i hi => hx i (Nat.lt_of_le_of_lt hw.created hi))
        fun i hi => hy' i (Nat.lt_of_le_of_lt hu.created hi))

end Emptied

end Workspace

/-! ### Building without telling -/

/-- Whether a scene comes of another one without anyone being told. -/
structure Scene.Within (s t : Scene σ) : Prop where
  audience : t.audience = s.audience
  muted : t.workspace.muted = s.workspace.muted
  reach : Reach s.workspace t.workspace

theorem Scene.Within.keeps_edit {s : Scene σ} {e : Edit α}
    (hm : ∀ muted, Keeps (fun w : Workspace => w.muted = muted) e)
    (he : ∀ w, Reach s.workspace w → Stroke w (stateAfter e w)) :
    Keeps s.Within (Act.edit (σ := σ) e) := fun _ ht =>
  Act.ends_edit (((hm _ _ rfl).and (Ends.of_stateAfter (P := Reach s.workspace)
    (ht.reach.tail (he _ ht.reach)))).mono
      (fun _ _ h => ⟨ht.audience, h.1.trans ht.muted, h.2⟩)
      fun _ _ h => ⟨ht.audience, h.1.trans ht.muted, h.2⟩)

/-- Emptying a workspace that is muted leaves the rest of the scene as it is. -/
theorem Act.ends_clear_emptied {a : Audience σ} {g : Workspace} {s : Scene σ} (hg : g.Sound)
    (hminted : g.Minted) (hp : g.Placed) (hs : s.workspace = { g with muted := g.muted + 1 })
    {good : Unit → Scene σ → Prop} {bad : Error → Scene σ → Prop}
    (h : ∀ w, g.Emptied w → good () { s with workspace := w }) : Ends (clear a) s good bad := by
  have hsound : s.workspace.Sound := hs ▸ hg.gesture g.dragging _
  have hm : s.workspace.muted = g.muted + 1 := hs ▸ rfl
  have hv : s.workspace.vocabulary = g.vocabulary := hs ▸ rfl
  have hc : s.workspace.created = g.created := hs ▸ rfl
  have hne : s.workspace.muted ≠ 0 := hm ▸ Nat.succ_ne_zero _
  have hminted' : s.workspace.Minted := hs ▸ hminted
  have hplaced : s.workspace.Placed := hs ▸ hp
  have within : Keeps s.Within (clear a) :=
    keeps_clear (keeps_tell_muted fun t ht => ht.muted ▸ hne) fun k => Scene.Within.keeps_edit
      (fun muted => (steady_muted muted).keeps_delete k false)
      fun w _ => .command (.delete k false)
  have cleared : Ends (clear a) s (fun _ t => ∃ w : Workspace, (∀ k, w.find? k = none) ∧
      w.vocabulary = s.workspace.vocabulary ∧ w.muted = s.workspace.muted ∧
      t = { s with workspace := w }) fun _ _ => False :=
    ends_clear_muted hsound hplaced hne fun w he hv hm => ⟨w, he, hv, hm, rfl⟩
  refine (cleared.and (within s ⟨rfl, rfl, .refl⟩)).mono (fun _ t ht => ?_) fun _ _ h => h.1.elim
  obtain ⟨⟨w, he, hvw, hmw, rfl⟩, ht⟩ := ht
  have hlater := hsound.reach hminted' ht.reach
  exact h w ⟨he, hvw.trans hv, hmw.trans hm, hc ▸ hlater.created⟩

/-! ### Loading a text -/

namespace Archive

variable {a : Audience σ} {archive : Archive} {text : String} {s : Scene σ}

theorem keeps_restore_within (hs : s.workspace.Sound) (hminted : s.workspace.Minted)
    (hm : s.workspace.muted ≠ 0) (hids : ∀ id, Gives text id → s.workspace.Admits id) :
    Keeps s.Within (restore a text) := by
  refine keeps_restore (Act.keeps_tell_muted fun t ht => ht.muted ▸ hm) ⟨?_, ?_, ?_, ?_⟩
  · exact fun type id position fields hid => Scene.Within.keeps_edit
      (fun muted => (steady_muted muted).keeps_create _ _ _ _)
      fun w hr => .create ((hids id hid).mono (hs.reach hminted hr).created)
  · exact fun k => Scene.Within.keeps_edit
      (fun muted => (steady_muted muted).keeps_update k fun _ => ⟨rfl, rfl, rfl, rfl, rfl, rfl⟩)
      fun w _ => .disable k
  · exact fun above socket below => Scene.Within.keeps_edit
      (fun muted => (steady_muted muted).keeps_connectValue _ _ _)
      fun w _ => .command (.connectValue above socket below)
  · exact fun above below => Scene.Within.keeps_edit
      (fun muted => (steady_muted muted).keeps_connectNext _ _)
      fun w _ => .command (.connectNext above below)

/-- What is built in a workspace that was emptied is sound, and its blocks have positions. -/
theorem sound_of_within {g w : Workspace} (hg : g.Sound) (hw : g.Emptied w) {t : Scene σ}
    (ht : Reach w t.workspace) : t.workspace.Sound ∧ t.workspace.Placed := by
  have hs := hw.sound hg
  refine ⟨(hs.reach hw.minted ht).sound, fun x c hc => ?_⟩
  have hstems := hs.holds_reach hw.minted hs.worded.persistent
    (fun x b hb => nomatch hb.symm.trans (hw.empty _)) ht
  obtain ⟨d, hd⟩ := hstems x c hc
  exact hd.placed

/-- What loading a text comes to.  What is built from it is kept, and the audience is told of the end
of loading; or the text is not in order, no block is left, and nobody is told of anything. -/
inductive Loaded (text : String) (s : Scene (List Change)) : Bool → Scene (List Change) → Prop where
  | restored {w : Workspace} {host : Host} {t u : Scene (List Change)} {c : Change} :
      s.workspace.Emptied w → restore .journal text { s with workspace := w, host } = .ok () t →
      u.workspace = { t.workspace with muted := s.workspace.muted } →
      c.kind = .finishedLoading → u.audience = s.audience ++ [c] → Loaded text s true u
  | refused {w : Workspace} {host : Host} {e : Error} {t u : Scene (List Change)} :
      s.workspace.Emptied w → restore .journal text { s with workspace := w, host } = .error e t →
      (∀ k, u.workspace.find? k = none) → u.audience = s.audience → Loaded text s false u

section

variable {s : Scene (List Change)} {host : Host} (hs : s.workspace.Steady)
  (hf : archive.slots.get archive.key s.host = .ok (some text) host)
  (hids : ∀ id, Gives text id → s.workspace.Admits id)

include hs hf hids

/-- **What loading a text that is found comes to.**  Where it fails, so does building from the text
in the workspace that was emptied, and not because the text is not in order. -/
theorem ends_load_text : Ends (archive.load .journal) s (Loaded text s) fun e _ =>
    isUnreadable e = false ∧ ∃ w host t, s.workspace.Emptied w ∧
      restore .journal text { s with workspace := w, host } = .error e t := by
  refine ends_load_found hf (Act.ends_quietly (ends_replace ?_))
  refine Act.ends_clear_emptied hs.sound hs.minted hs.placed rfl fun w hw => ?_
  let r : Scene (List Change) := { s with workspace := w, host }
  have hmw : w.muted = 1 := by rw [hw.muted, hs.told]
  have hne : r.workspace.muted ≠ 0 := by
    change w.muted ≠ 0
    omega
  -- the workspace is muted all the while, so what is built is not told of
  have hbuilt : Ends (restore .journal text) r
      (fun _ t => restore .journal text r = .ok () t ∧ r.Within t)
      fun e t => restore .journal text r = .error e t ∧ r.Within t :=
    (Ends.self _ _).and (keeps_restore_within (hw.sound hs.sound) hw.minted hne
      (fun id hid => (hids id hid).mono hw.created) r ⟨rfl, rfl, .refl⟩)
  refine hbuilt.mono (fun _ t ht => ?_) fun e t ht => ?_
  · rw [if_pos rfl]
    refine Ends.bind (Ends.get (Ends.bind (Ends.modify (Ends.bind (Ends.bind (Ends.get ?_))))))
    have htold : t.workspace.muted - 1 = 0 := by rw [ht.2.muted]; exact congrArg (· - 1) hmw
    dsimp only [Scene.hushed]
    rw [if_pos htold]
    refine Ends.bind (Ends.modify (Ends.pure (Ends.pure ?_)))
    refine .restored hw ht.1 ?_ rfl (congrArg (· ++ _) ht.2.audience)
    rw [hs.told]
    exact congrArg (fun muted => { t.workspace with muted }) htold
  · split
    · obtain ⟨hsound, hplaced⟩ := sound_of_within hs.sound hw ht.2.reach
      refine Ends.bind (Ends.modify (Ends.bind (Act.ends_clear_muted hsound hplaced ?_ ?_)))
      · exact ht.2.muted ▸ hne
      · intro u hu _ _
        exact Ends.pure (.refused hw ht.1 hu ht.2.audience)
    · rename_i hreadable
      exact ⟨Bool.eq_false_iff.mpr hreadable, w, host, t, hw, ht.1⟩

/-- A text that can be built from wherever the workspace is emptied is loaded. -/
theorem exists_load_text (h : ∀ w host, s.workspace.Emptied w →
    ∃ t, restore .journal text { s with workspace := w, host } = .ok () t) :
    ∃ u, archive.load .journal s = .ok true u ∧ Loaded text s true u := by
  have hload := (Ends.self (archive.load .journal) s).and (ends_load_text hs hf hids)
  have hends : Ends (archive.load .journal) s (fun restored u => restored = true ∧
      archive.load .journal s = .ok restored u ∧ Loaded text s restored u) fun _ _ => False := by
    refine hload.mono (fun restored u hu => ?_) fun e _ he => ?_
    · cases hu.2 with
      | restored => exact ⟨rfl, hu⟩
      | refused hw he =>
          obtain ⟨t, ht⟩ := h _ _ hw
          exact nomatch he.symm.trans ht
    · obtain ⟨-, -, w, host, t, hw, he⟩ := he
      obtain ⟨t', ht⟩ := h _ _ hw
      exact nomatch he.symm.trans ht
  obtain ⟨_, u, -, rfl, hu⟩ := hends.exists_ok
  exact ⟨u, hu⟩

end

/-- What one workspace is loaded with another one of the vocabulary is loaded with, apart from names
that are given to blocks. -/
theorem Loaded.exists_twin {s r u : Scene (List Change)} {host : Host} (h : Loaded text s true u)
    (hs : s.workspace.Steady) (hr : r.workspace.Steady)
    (hv : s.workspace.vocabulary = r.workspace.vocabulary)
    (hids : ∀ id, Gives text id → s.workspace.Admits id)
    (hids' : ∀ id, Gives text id → r.workspace.Admits id)
    (hf : archive.slots.get archive.key r.host = .ok (some text) host) :
    ∃ t, archive.load .journal r = .ok true t ∧
      ∃ m n, u.workspace.Twins (Corresponds m n) t.workspace := by
  cases h with
  | @restored w host₁ t _ _ hw hrestored hut _ _ =>
      -- building goes the same way wherever it starts in a workspace that was emptied
      have again (w' : Workspace) (host' : Host) (hw' : r.workspace.Emptied w') : ∃ t',
          restore .journal text { r with workspace := w', host := host' } = .ok () t' ∧
            Scene.Twins (Corresponds w.created w'.created) t t' := by
        have halike := alike_restore (a := .journal) (b := .journal)
          (oneToOne_corresponds w.created w'.created)
          fun id hid => hw.twin_self hw' (hids id hid) (hids' id hid)
        let s₁ : Scene (List Change) := { s with workspace := w, host := host₁ }
        let r₁ : Scene (List Change) := { r with workspace := w', host := host' }
        have hne : w.muted ≠ 0 := by rw [hw.muted]; exact Nat.succ_ne_zero _
        have hstart : Scene.Twins (Corresponds w.created w'.created) s₁ r₁ :=
          ⟨hw.twins hw' hv (hs.told.trans hr.told.symm), hne⟩
        obtain ⟨_, t', ht', -, htwins⟩ := halike.exists_ok hstart hrestored
        exact ⟨t', ht', htwins⟩
      obtain ⟨t₁, hload, hloaded⟩ := exists_load_text hr hf hids'
        fun w' host' hw' => (again w' host' hw').imp fun _ h => h.1
      refine ⟨t₁, hload, ?_⟩
      cases hloaded with
      | @restored w' host' t' _ _ hw' hrestored' ht₁ =>
          obtain ⟨t₂, ht₂, htwins⟩ := again w' host' hw'
          cases hrestored'.symm.trans ht₂
          refine ⟨w.created, w'.created, ?_⟩
          rw [hut, ht₁, hs.told, hr.told]
          exact htwins.1.hushed 0

/-- Without a text that is found, loading leaves the workspace as it is. -/
theorem ends_load_absent {s : Scene (List Change)} (hf : ¬ ∃ text, archive.Stored s.host text) :
    Ends (archive.load .journal) s (fun restored u => restored = false ∧
      u.workspace = s.workspace ∧ u.audience = s.audience) fun _ _ => True := by
  unfold load
  refine Ends.bind (Act.ends_attempt (Act.ends_onHost ?_))
  refine (Ends.self _ _).mono (fun found host hfound => ?_) fun e host _ => ?_
  · cases found with
    | none => exact Ends.pure ⟨rfl, rfl, rfl⟩
    | some text => exact absurd ⟨text, host, hfound⟩ hf
  · cases e with
    | damage d => exact Ends.bind (Ends.modify (Ends.pure ⟨rfl, rfl, rfl⟩))
    | _ => exact Ends.throw trivial

end Archive

/-! ### Histories -/

namespace History

variable {a : Audience σ} {v : Vocabulary} {g : Workspace}

/-- The positions in a workspace of a history are numbers. -/
theorem placed (ha : a.Tame) (hv : v.Worded) (hg : History a v g) : g.Placed := by
  have worded : v.orStock.Worded := by
    rw [← hg.vocabulary ha hv]
    exact (hg.sound ha hv).worded
  intro x c hc
  obtain ⟨d, hd⟩ := hg.holds ha hv worded.persistent x c hc
  exact hd.placed

theorem steady (ha : a.Tame) (ho : a.Open) (hv : v.Worded) (hg : History a v g) : g.Steady :=
  ⟨hg.sound ha hv, (hg.grounded ha hv).2, hg.placed ha hv, hg.unmuted ho⟩

/-- **Loading is all or nothing.**  However it ends, changes are kept from the audience as often as
before.  If it ends with an answer, then without a text that is found the workspace is as it was;
with one, either no block is left and nothing was told, or the audience was told of the end of
loading, and any other workspace of the vocabulary would have come out the same, apart from names
that were given to blocks. -/
theorem all_or_nothing (ha : a.Tame) (ho : a.Open) (hv : v.Worded) (hg : History a v g)
    {archive : Archive} {s : Scene (List Change)} (hs : s.workspace = g)
    (hids : ∀ text, archive.Stored s.host text → ∀ id, Archive.Gives text id → g.Admits id) :
    (stateAfter (archive.load .journal) s).workspace.muted = g.muted ∧
      ∀ restored u, archive.load .journal s = .ok restored u →
        ((¬ ∃ text, archive.Stored s.host text) →
          restored = false ∧ u.workspace = g ∧ u.audience = s.audience) ∧
        ((∃ text, archive.Stored s.host text) → restored = false →
          (∀ k, u.workspace.find? k = none) ∧ u.audience = s.audience) ∧
        (restored = true → (∃ c, c.kind = .finishedLoading ∧ u.audience = s.audience ++ [c]) ∧
          ∃ text, archive.Stored s.host text ∧
            ∀ {τ : Type} {b : Audience τ} {r : Scene (List Change)}, b.Tame → b.Open →
              History b v r.workspace → archive.Stored r.host text →
              (∀ id, Archive.Gives text id → r.workspace.Admits id) →
              ∃ t, archive.load .journal r = .ok true t ∧
                ∃ m n, u.workspace.Twins (Corresponds m n) t.workspace) := by
  subst hs
  have hsteady := hg.steady ha ho hv
  refine ⟨(archive.keeps_muted Audience.open_journal _).stateAfter rfl, fun restored u hu => ?_⟩
  by_cases hf : ∃ text, archive.Stored s.host text
  swap
  · have habsent := Archive.ends_load_absent hf
    rw [Ends.of_ok hu] at habsent
    refine ⟨fun _ => habsent, fun h => absurd h hf, fun h => ?_⟩
    exact nomatch habsent.1.symm.trans h
  obtain ⟨text, host, hget⟩ := hf
  have hids' := hids text ⟨host, hget⟩
  have hloaded := Archive.ends_load_text hsteady hget hids'
  rw [Ends.of_ok hu] at hloaded
  refine ⟨fun h => absurd ⟨text, host, hget⟩ h, fun _ hfalse => ?_, fun htrue => ?_⟩
  · subst hfalse
    cases hloaded with
    | refused _ _ hempty hheard => exact ⟨hempty, hheard⟩
  · subst htrue
    have hheard : ∃ c, c.kind = .finishedLoading ∧ u.audience = s.audience ++ [c] := by
      cases hloaded with
      | restored _ _ _ hc hheard => exact ⟨_, hc, hheard⟩
    refine ⟨hheard, text, ⟨host, hget⟩, fun {τ b r} hb hbo hr hfound hgiven => ?_⟩
    obtain ⟨host', hget'⟩ := hfound
    exact hloaded.exists_twin hsteady (hr.steady hb hbo hv)
      ((hg.vocabulary ha hv).trans (hr.vocabulary hb hv).symm) hids' hgiven hget'

/-- The document of one text that is given no name. -/
def unnamedDocument : Value :=
  .record [("blocks", .record [("languageVersion", .int 0), ("blocks", .list [.record
    [("type", .text "text")]])])]

set_option maxRecDepth 4000 in
theorem read_unnamedDocument :
    Json.read (Json.compact unnamedDocument) = .ok unnamedDocument := by cbv

/-- The text of one block without a name is loaded where there is another block. -/
theorem all_or_nothing_unnamed : ∃ s : Scene (List Change),
    History .journal .stock s.workspace ∧ (s.workspace.block? "word").isSome ∧
      (Archive.mk (.memory 0) (.text defaultKey)).Stored s.host (Json.compact unnamedDocument) ∧
      ∀ u, (Archive.mk (.memory 0) (.text defaultKey)).load .journal s = .ok true u →
        (∃ c, c.kind = .finishedLoading ∧ u.audience = s.audience ++ [c]) ∧
          ∃ t, (Archive.mk (.memory 0) (.text defaultKey)).load .journal
              { s with workspace := .new .stock 0 } = .ok true t ∧
            ∃ m n, u.workspace.Twins (Corresponds m n) t.workspace := by
  obtain ⟨g, hg, -, hlone⟩ := exists_text (x := "word") (by decide) (by decide)
  let archive : Archive := ⟨.memory 0, .text defaultKey⟩
  let text := Json.compact unnamedDocument
  let host : Host := { memories := [[(.text defaultKey, text)]] }
  let s : Scene (List Change) := { workspace := g, host, audience := [] }
  have hfound : archive.slots.get archive.key host = .ok (some text) host := rfl
  have hnull (text' : String) (hs : archive.Stored host text') (id : Value)
      (hid : Archive.Gives text' id) : id = .null := by
    obtain ⟨host', hs⟩ := hs
    obtain rfl : text = text' := by cases hfound.symm.trans hs; rfl
    obtain ⟨document, strands, hd, hstrands, hid⟩ := hid
    obtain rfl := Except.ok.inj (read_unnamedDocument.symm.trans hd)
    cases hstrands
    exact List.mem_singleton.mp hid
  have hids (text' : String) (hs : archive.Stored s.host text') (id : Value)
      (hid : Archive.Gives text' id) : g.Admits id := .inl (hnull text' hs id hid)
  obtain ⟨-, hends⟩ := all_or_nothing Audience.tame_journal Audience.open_journal
    Vocabulary.worded_stock hg (s := s) rfl hids
  refine ⟨s, hg, by rw [show s.workspace.block? "word" = _ from hlone.block?_self]; rfl,
    ⟨host, hfound⟩, fun u hu => ?_⟩
  obtain ⟨hheard, text', hstored, htwin⟩ := (hends true u hu).2.2 rfl
  exact ⟨hheard, htwin (r := { s with workspace := .new .stock 0 }) Audience.tame_journal
    Audience.open_journal (.new 0) hstored fun id hid => .inl (hnull text' hstored id hid)⟩

end History

/-! ### What is not removed -/

namespace Loading

/-- A type with a socket that has no name. -/
def nameless : Declaration where
  type := .text "t"
  message := "%1"
  sockets := [{ name := .null, kind := .input }]
  previous := true
  next := true
  isValue := true
  colour := Vocabulary.text.colour

/-- The vocabulary of that type. -/
def namelessVocabulary : Vocabulary := ⟨[nameless], by decide⟩

/-- A new block of it. -/
def blank (x : String) : Block :=
  Edit.newBlock x (.text "t") nameless [] [.float (.zero false), .float (.zero false)]

/-- A block in a socket without a name. -/
def plugged : Block := { blank "p" with inputs := [(.null, .text "c")] }

def hung (x : String) : Block := { blank x with parent := .text "p" }

open Workspace (Listed)

variable {w : Workspace} {muted : Nat}

theorem declarationOf_blank {es : List (Key × Block)} (h : w.Listed namelessVocabulary muted es)
    {b : Block} (hb : b.type = .text "t") : w.declarationOf b = .ok nameless :=
  h.declarationOf_eq hb rfl

/-- A block is plugged into the socket without a name. -/
theorem ends_plug {es : List (Key × Block)} (h : w.Listed namelessVocabulary muted
      ((.text "p", blank "p") :: (.text "c", blank "c") :: es))
    {P : Workspace → Prop} (hP : ∀ u : Workspace, u.Listed namelessVocabulary muted
      ((.text "p", plugged) :: (.text "c", hung "c") :: es) → P u) :
    Ends (Edit.connectValue (.text "p") .null (.text "c")) w (fun _ u => P u) fun _ u => P u := by
  have hangs : w.hangsFrom (.text "c") (.text "p") = .ok false :=
    h.hangsFrom_loose (b := blank "p") rfl rfl rfl (by decide)
  exact h.ends_connectValue_free rfl rfl (declarationOf_blank h rfl) rfl rfl (declarationOf_blank h rfl)
    rfl rfl hangs rfl rfl rfl fun _ u hu => hP u hu

/-- Another one follows the block. -/
theorem ends_link (h : w.Listed namelessVocabulary muted
      [(.text "p", plugged), (.text "c", hung "c"), (.text "n", blank "n")])
    {P : Workspace → Prop} (hP : ∀ u : Workspace, u.Listed namelessVocabulary muted
      [(.text "p", { plugged with next := .text "n" }), (.text "c", hung "c"),
        (.text "n", hung "n")] → P u) :
    Ends (Edit.connectNext (.text "p") (.text "n")) w (fun _ u => P u) fun _ u => P u := by
  have hangs : w.hangsFrom (.text "n") (.text "p") = .ok false :=
    h.hangsFrom_loose (b := plugged) rfl rfl rfl (by decide)
  exact h.ends_connectNext_free rfl rfl (declarationOf_blank h rfl) rfl (declarationOf_blank h rfl) rfl
    hangs rfl rfl rfl fun _ u hu => hP u hu

/-- The block in the socket is deleted; the other one then hangs from a block that does not lead to
it. -/
theorem ends_drop (h : w.Listed namelessVocabulary muted
      [(.text "p", { plugged with next := .text "n" }), (.text "c", hung "c"),
        (.text "n", hung "n")])
    {good : List Notice → Workspace → Prop} {bad : Error → Workspace → Prop}
    (hg : ∀ u : Workspace, u.Listed namelessVocabulary muted
      [(.text "p", plugged), (.text "n", hung "n")] → good (Edit.deleted (.text "c") ["c"]) u) :
    Ends (Edit.delete (.text "c") false) w good bad := by
  unfold Edit.delete
  refine Ends.bind (h.ends_require rfl ?_)
  dsimp only
  rw [if_neg (by decide)]
  refine Ends.bind (h.ends_unplug_behind rfl (by decide) rfl rfl rfl rfl fun w h _ => ?_)
  have h : w.Listed namelessVocabulary muted
      [(.text "p", plugged), (.text "c", blank "c"), (.text "n", hung "n")] := h
  have hbelow : w.descendants (.text "c") = .ok [blank "c"] := by
    rw [Workspace.descendants_eq, h.size_eq]
    simp only [List.length_cons, List.length_nil, Workspace.descendantsFrom, h.find?_eq]
    rfl
  refine Ends.bind (Ends.get (Ends.bind (Edit.ends_ofExcept_ok hbelow ?_)))
  exact Ends.bind (h.ends_removeAll_cons (k := .text "c") rfl rfl fun w h _ =>
    Ends.pure (Ends.pure (hg w h)))

/-- Emptying the workspace leaves a block that hangs from one that does not lead to it. -/
theorem ends_clear_left {s : Scene (List Change)} (h : s.workspace.Listed namelessVocabulary muted
      [(.text "p", plugged), (.text "n", hung "n")]) (hm : muted ≠ 0)
    {good : Unit → Scene (List Change) → Prop} {bad : Error → Scene (List Change) → Prop}
    (hg : ∀ w : Workspace, w.Listed namelessVocabulary muted [(.text "n", hung "n")] →
      good () { s with workspace := w }) : Ends (Act.clear .journal) s good bad := by
  have htops : s.workspace.tops = .ok [plugged] := by
    have hspots : s.workspace.spots =
        .ok [⟨plugged, .float (.zero false), .float (.zero false), 0⟩] := by
      rw [Workspace.spots, h.entries]
      rfl
    simp only [Workspace.tops, hspots, Bind.bind, Except.bind, Workspace.sort_spot]
    rfl
  refine Ends.bind (Ends.get (Ends.bind (Act.ends_ofExcept_ok htops ?_)))
  refine Ends.bind (Act.ends_ofExcept_ok rfl (Ends.bind (Ends.get ?_)))
  have hthere : s.workspace.contains (.text "p") = true := by
    change (s.workspace.find? _).isSome = true
    rw [h.find?_eq]
    rfl
  dsimp only
  rw [if_pos hthere]
  refine Ends.bind (Act.ends_perform_muted ?_)
  unfold Edit.delete
  refine Ends.bind (h.ends_require rfl ?_)
  dsimp only
  rw [if_neg (by decide)]
  refine Ends.bind (h.ends_unplug_loose rfl rfl ?_)
  have hbelow : s.workspace.descendants (.text "p") = .ok [plugged] := by
    rw [Workspace.descendants_eq, h.size_eq]
    simp only [List.length_cons, List.length_nil, Workspace.descendantsFrom, h.find?_eq]
    rfl
  refine Ends.bind (Ends.get (Ends.bind (Edit.ends_ofExcept_ok hbelow ?_)))
  refine Ends.bind (h.ends_removeAll_cons (k := .text "p") rfl rfl fun w h _ => ?_)
  refine Ends.pure (Ends.pure ?_)
  exact ⟨h.muted ▸ hm, Ends.pure (hg w h)⟩

/-- A new block of the type takes its place behind those that are there. -/
theorem exists_blank {es : List (Key × Block)} (hw : History .journal namelessVocabulary w)
    (h : w.Listed namelessVocabulary muted es) {x : String} (hx : x ≠ "") (hl : x.length < 5)
    (hn : Entries.get? es (.text x) = none) : ∃ u, History .journal namelessVocabulary u ∧
      u.Listed namelessVocabulary muted (Entries.put es (.text x) (blank x)) := by
  have hdeclared : (do w.vocabulary.get (← (Value.text "t").toKey)) = .ok nameless := by
    rw [h.vocabulary]
    rfl
  have hcreates : Edit.Creates w (.text "t") (.text x) Snapshot.origin [] nameless []
      [.float (.zero false), .float (.zero false)] :=
    ⟨hdeclared, rfl, rfl, .inr ((h.find?_eq _).trans hn)⟩
  exact hw.exists_listed h hx hl hcreates

/-- There is a workspace where a block is in a socket without a name, and another one follows. -/
theorem exists_linked : ∃ w, History .journal namelessVocabulary w ∧
    w.Listed namelessVocabulary 0 [(.text "p", { plugged with next := .text "n" }),
      (.text "c", hung "c"), (.text "n", hung "n")] := by
  obtain ⟨w, hw, h⟩ := exists_blank (.new 0) (Workspace.listed_new rfl 0) (x := "p") (by decide)
    (by decide) rfl
  obtain ⟨w, hw, h⟩ := exists_blank hw h (x := "c") (by decide) (by decide) rfl
  obtain ⟨w, hw, h⟩ := exists_blank hw h (x := "n") (by decide) (by decide) rfl
  obtain ⟨w, hw, h⟩ := hw.exists_command (.connectValue (.text "p") .null (.text "c"))
    (ends_plug h fun _ hu => hu)
  exact hw.exists_command (.connectNext (.text "p") (.text "n")) (ends_link h fun _ hu => hu)

/-- A block is left when a text that is not in order is loaded. -/
theorem block_left_behind : ∃ s u : Scene (List Change),
    History .journal namelessVocabulary s.workspace ∧
      (Archive.mk (.memory 0) (.text defaultKey)).Stored s.host "?" ∧
      (Archive.mk (.memory 0) (.text defaultKey)).load .journal s = .ok false u ∧
      (u.workspace.block? "n").isSome := by
  obtain ⟨w, hw, h⟩ := exists_linked
  obtain ⟨w, hw, h⟩ := hw.exists_command (.delete (.text "c") false) (ends_drop h fun _ hu => hu)
  let archive : Archive := ⟨.memory 0, .text defaultKey⟩
  let host : Host := { memories := [[(.text defaultKey, "?")]] }
  let s : Scene (List Change) := { workspace := w, host, audience := [] }
  have hfound : archive.slots.get archive.key s.host = .ok (some "?") host := rfl
  have hread : Json.read "?" = .error (.failure .malformedJson) := by rfl
  have hload : Ends (archive.load .journal) s (fun restored u => restored = false ∧
      (u.workspace.block? "n").isSome) fun _ _ => False := by
    refine Archive.ends_load_found hfound (Act.ends_quietly (Archive.ends_replace ?_))
    refine ends_clear_left (h.hushed _) (Nat.succ_ne_zero _) fun w h => ?_
    unfold Archive.restore
    rw [hread]
    refine Ends.throw ?_
    rw [if_pos (show Archive.isUnreadable (.failure .malformedJson) = true from rfl)]
    have hspots : w.spots = .ok [] := by
      rw [Workspace.spots, h.entries]
      rfl
    refine Ends.bind (Ends.modify (Ends.bind (Act.ends_clear_topless ?_ (Ends.pure ?_))))
    · exact hspots
    rw [if_neg Bool.false_ne_true]
    refine ⟨rfl, ?_⟩
    change (w.find? (.text "n")).isSome = true
    rw [h.find?_eq]
    rfl
  obtain ⟨_, u, hu, rfl, hn⟩ := hload.exists_ok
  exact ⟨s, u, hw, ⟨host, hfound⟩, hu, hn⟩

end Loading

end Blockwork
