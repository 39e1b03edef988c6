import Blockwork.Proofs.Documents
import Blockwork.Proofs.Loading

/-!
# What loading fails by

A text that is not in order is ignored, and loading answers that there was none.  What a text can be
at fault with is told by the errors of its parts: of reading it (`Json.reads_read`), of its outline
(`Snapshot.Strand.Regular`) and of the edits by which a workspace is rebuilt (`Edit.Errs`).  All of
them mean that the text is not readable but one, a number that is too great.  So loading fails by
that alone, where the slots do not fail (`History.fails_by_overflow`).
-/

namespace Blockwork

/-! ### Outlines -/

namespace Snapshot

/-- Whether an error in building a workspace says that the text is not readable, or that a number is
too great. -/
def Excused (e : Error) : Prop :=
  Archive.isUnreadable (asDamage e) = true ∨ e = .failure .overflow

theorem errs_excused : Edit.Errs Excused where
  overflow := .inr rfl
  badValue := .inl rfl
  wrongType := .inl rfl
  missingKey := .inl rfl
  violation _ := .inl rfl
  unknownType _ := .inl rfl

/-- Whether a position is one of two numbers. -/
def IsPlace (position : Value) : Prop := ∃ x y : Binary64, position = .list [.float x, .float y]

mutual

/-- Whether faults in an entry are excused, and blocks have places. -/
def Entry.Regular : Entry → Prop
  | .fault e => Excused e
  | .block h inputs => IsPlace h.position ∧ RegularInputs inputs

/-- Whether what is plugged into a block is regular. -/
def RegularInputs : List (Key × Option Entry) → Prop
  | [] => True
  | (_, e) :: rest => RegularInput e ∧ RegularInputs rest

/-- Whether what is plugged into one socket is regular. -/
def RegularInput : Option Entry → Prop
  | none => True
  | some e => e.Regular

end

/-- Whether the entries of a chain are regular. -/
def Strand.Regular (s : Strand) : Prop := s.top.Regular ∧ ∀ e ∈ s.following, e.Regular

theorem regularInputs_iff {inputs : List (Key × Option Entry)} :
    RegularInputs inputs ↔ ∀ i ∈ inputs, ∀ e ∈ i.2, e.Regular := by
  induction inputs with
  | nil => simp [RegularInputs]
  | cons i inputs ih =>
      obtain ⟨k, e⟩ := i
      rw [RegularInputs, ih, List.forall_mem_cons]
      cases e <;> simp [RegularInput]

/-- What a value describes is regular, whatever the value. -/
theorem spreads_regular : Spreads (fun _ => True) Entry.Regular where
  parts := ⟨fun _ _ => trivial, fun _ _ => trivial⟩
  damage _ := .inl rfl
  coordinate := Value.failsBy_toFloat errs_excused.toCalculates
  block x y _ _ _ _ _ hall := ⟨⟨x, y, rfl⟩, regularInputs_iff.mpr hall⟩

/-- A document without an outline is not readable. -/
theorem failsBy_outline (document : Value) :
    FailsBy (Archive.isUnreadable · = true) (outline document) := by
  unfold outline
  split
  · split
    · exact FailsBy.ok _
    · split
      · dsimp only
        split
        · exact FailsBy.ok _
        · exact FailsBy.error rfl
      · exact FailsBy.error rfl
    · exact FailsBy.error rfl
  · exact FailsBy.error rfl

/-! ### Rebuilding -/

section

variable {σ α : Type} {a : Audience σ} {bad : Error → Prop}

/-- Whether nothing is told. -/
def Hushed (w : Workspace) : Prop := w.muted ≠ 0

theorem steady_hushed : Steady Hushed where
  changed _ _ _ h := h
  written _ h := h
  moved _ _ h := h
  raised _ _ _ h := h
  added _ _ _ _ _ h := h
  taken _ h := h
  dragged _ h := h

/-- Whether an action where nothing is told leaves it so, and fails by errors of a kind only. -/
abbrev Quiet (bad : Error → Prop) (x : Act σ α) : Prop :=
  Behaves (fun s : Scene σ => Hushed s.workspace) bad x

theorem quiet_edit {e : Edit α} (h : Behaves Hushed bad e) : Quiet bad (Act.edit (σ := σ) e) :=
  fun _ hs => Act.ends_edit (h _ hs)

theorem quiet_tellAll (ns : List Notice) : Quiet bad (Act.tellAll a ns) :=
  fun _ hs => Act.ends_tellAll_muted hs hs

theorem quiet_perform {e : Edit (List Notice)} (h : Behaves Hushed bad e) :
    Quiet bad (Act.perform a e) := (quiet_edit h).bind fun ns => quiet_tellAll ns

theorem quiet_place {h : Head} (hp : IsPlace h.position) : Quiet Excused (place a h) := by
  have hplaced : FailsBy Excused (Edit.coordinates h.position) := by
    obtain ⟨x, y, hxy⟩ := hp
    rw [hxy]
    exact FailsBy.ok _
  unfold place
  cases h.type with
  | none => exact Behaves.throw (.inl rfl)
  | some type =>
      have create : Quiet Excused (Act.create a type h.id h.position h.fields) :=
        (quiet_edit (steady_hushed.behaves_create errs_excused type h.id h.fields hplaced)).bind
          fun made => (quiet_tellAll made.2).bind fun _ => Behaves.pure made.1
      refine create.bind fun id => ?_
      dsimp only
      split
      · refine Behaves.bind (quiet_edit (steady_hushed.behaves_update id ?_)) fun _ =>
          Behaves.pure id
        exact fun _ => ⟨rfl, rfl, rfl, rfl, rfl, rfl⟩
      · exact Behaves.pure id

end

section

variable {σ : Type} {a : Audience σ}

mutual

/-- An entry that is regular is built, or it is excused that it is not. -/
theorem quiet_grow : ∀ {e : Entry}, e.Regular → Quiet Excused (grow a e)
  | .fault e, h => by
    rw [Entry.Regular] at h
    exact Behaves.throw h
  | .block head inputs, h => by
    rw [Entry.Regular] at h
    unfold grow
    exact (quiet_place h.1).bind fun id => (quiet_growInputs id h.2).bind fun _ => Behaves.pure id

theorem quiet_growInputs (id : Key) : ∀ {inputs : List (Key × Option Entry)},
    RegularInputs inputs → Quiet Excused (growInputs a id inputs)
  | [], _ => Behaves.pure ()
  | (socket, e) :: rest, h => by
    rw [RegularInputs] at h
    unfold growInputs
    exact (quiet_growInput id socket h.1).bind fun _ => quiet_growInputs id h.2

theorem quiet_growInput (id socket : Key) : ∀ {e : Option Entry}, RegularInput e →
    Quiet Excused (growInput a id socket e)
  | none, _ => Behaves.throw (.inl rfl)
  | some e, h => by
    rw [RegularInput] at h
    unfold growInput
    refine (quiet_grow h).bind fun child => quiet_perform ?_
    exact steady_hushed.behaves_connectValue errs_excused id _ child

end

theorem quiet_growAfter {es : List Entry} (h : ∀ e ∈ es, e.Regular) (previous : Key) :
    Quiet Excused (growAfter a previous es) := by
  induction es generalizing previous with
  | nil => exact Behaves.pure ()
  | cons e es ih =>
      have rest := ih fun e he => h e (List.mem_cons_of_mem _ he)
      refine (quiet_grow (h e List.mem_cons_self)).bind fun id => ?_
      have connect := steady_hushed.behaves_connectNext errs_excused previous id
      exact (quiet_perform connect).bind fun _ => rest id

theorem quiet_growAll {ss : List Strand} (h : ∀ s ∈ ss, s.Regular) :
    Quiet Excused (growAll a ss) := by
  induction ss with
  | nil => exact Behaves.pure []
  | cons s ss ih =>
      obtain ⟨htop, hfollowing⟩ := h s List.mem_cons_self
      have strand : Quiet Excused (growStrand a s) :=
        (quiet_grow htop).bind fun top => (quiet_growAfter hfollowing top).bind fun _ =>
          Behaves.pure top
      refine strand.bind fun top => ?_
      exact (ih fun s hs => h s (List.mem_cons_of_mem _ hs)).bind fun tops =>
        Behaves.pure (top :: tops)

end

end Snapshot

/-! ### Loading -/

/-- Whether an error says that a text is not readable, or that a number is too great. -/
def Archive.Refuses (e : Error) : Prop := isUnreadable e = true ∨ e = .failure .overflow

namespace Archive

variable {σ : Type} {a : Audience σ}

/-- Building a workspace from a text fails where the text is not readable, or by a number that is too
great. -/
theorem quiet_restore (text : String) : Snapshot.Quiet Refuses (restore a text) := by
  unfold restore
  split
  · rename_i e he
    exact Behaves.throw (.inl ((Json.reads_read text).1 e he))
  · rename_i document _
    refine Behaves.bind ?_ fun _ => Behaves.pure ()
    unfold Snapshot.rebuild
    split
    · rename_i e he
      exact Behaves.throw (.inl (Snapshot.failsBy_outline document e he))
    · rename_i strands hs
      intro s hmuted
      have hregular := Snapshot.spreads_regular.outline trivial hs
      have hgrow := Snapshot.quiet_growAll (a := a) hregular s hmuted
      refine Act.ends_mapError (hgrow.mono (fun _ _ ht => ht) fun e t ht => ⟨ht.1, ?_⟩)
      rcases ht.2 with hunreadable | rfl
      · exact .inl hunreadable
      · exact .inr rfl

end Archive

/-- **Loading fails by a number that is too great, or as the slots do.**  What the slots report as
damage, and whatever else is the matter with a text, is taken for a workspace that was not stored. -/
theorem History.fails_by_overflow {σ : Type} {a : Audience σ} {v : Vocabulary} {g : Workspace}
    (ha : a.Tame) (ho : a.Open) (hv : v.Worded) (hg : History a v g) {archive : Archive}
    {s t : Scene (List Change)} (hs : s.workspace = g)
    (hids : ∀ text, archive.Stored s.host text → ∀ id, Archive.Gives text id → g.Admits id)
    {e : Error} (he : archive.load .journal s = .error e t) :
    e = .failure .overflow ∨
      ∃ host, archive.slots.get archive.key s.host = .error e host ∧ ∀ d, e ≠ .damage d := by
  subst hs
  have hsteady := hg.steady ha ho hv
  cases hget : archive.slots.get archive.key s.host with
  | error e' host =>
      have hends : Ends (archive.load .journal) s (fun _ _ => True)
          fun e _ => e = e' ∧ ∀ d, e ≠ .damage d := by
        unfold Archive.load
        refine Ends.bind (Act.ends_attempt (Act.ends_onHost ?_))
        rw [Ends.of_error hget]
        cases e' with
        | damage d => exact Ends.bind (Ends.modify (Ends.pure trivial))
        | _ => exact Ends.throw ⟨rfl, fun d hd => by cases hd⟩
      rw [Ends.of_error he] at hends
      obtain ⟨rfl, hd⟩ := hends
      exact .inr ⟨host, rfl, hd⟩
  | ok found host =>
      cases found with
      | none =>
          -- without a text that is found there is nothing to build, and nothing to fail
          have hends : Ends (archive.load .journal) s (fun _ _ => True) fun _ _ => False := by
            unfold Archive.load
            refine Ends.bind (Act.ends_attempt (Act.ends_onHost ?_))
            rw [Ends.of_ok hget]
            exact Ends.pure trivial
          rw [Ends.of_error he] at hends
          exact hends.elim
      | some text =>
          have hends := Archive.ends_load_text hsteady hget (hids text ⟨host, hget⟩)
          rw [Ends.of_error he] at hends
          -- of the two ways for a text to be refused, one is not an error of loading
          obtain ⟨hreadable, w, host', u, hw, hrestore⟩ := hends
          have hmuted : w.muted ≠ 0 := by
            rw [hw.muted]
            exact Nat.succ_ne_zero _
          have hrefuses := Archive.quiet_restore (a := .journal) text
            { s with workspace := w, host := host' } hmuted
          rw [Ends.of_error hrestore] at hrefuses
          rcases hrefuses.2 with hunreadable | hoverflow
          · rw [hreadable] at hunreadable
            cases hunreadable
          · exact .inl hoverflow

end Blockwork
