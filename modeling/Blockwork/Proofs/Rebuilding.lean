import Blockwork.Archive
import Blockwork.Proofs.Scenes

/-!
# What loading keeps

A workspace is rebuilt from a stored document by creating blocks, turning some of them off and
connecting them.  So rebuilding keeps whatever these edits keep (`Snapshot.Builds`), where blocks
are created under no other ids than the document gives (`Snapshot.Entry.ids`); and loading keeps
what emptying the workspace and rebuilding it keep.
-/

namespace Blockwork

variable {σ : Type}

namespace Snapshot

/-! ### Ids in an outline -/

mutual

/-- The ids that an entry gives to blocks; `null` stands for none. -/
def Entry.ids : Entry → List Value
  | .fault _ => []
  | .block h inputs => h.id :: idsOfInputs inputs

/-- The ids in what is plugged into a block. -/
def idsOfInputs : List (Key × Option Entry) → List Value
  | [] => []
  | (_, e) :: rest => idsOfInput e ++ idsOfInputs rest

/-- The ids in what is plugged into one socket. -/
def idsOfInput : Option Entry → List Value
  | none => []
  | some e => e.ids

end

/-- The ids in a chain. -/
def Strand.ids (s : Strand) : List Value := s.top.ids ++ s.following.flatMap Entry.ids

/-! ### Rebuilding -/

/-- Whether the edits by which a workspace is rebuilt keep a property, where blocks are created
under certain ids only. -/
structure Builds (P : Scene σ → Prop) (given : Value → Prop) : Prop where
  create : ∀ type id position fields, given id →
    Keeps P (Act.edit (σ := σ) (Edit.create type id position fields))
  disable : ∀ k, Keeps P
    (Act.edit (σ := σ) (Edit.update k fun b => { b with enabled := .bool false }))
  connectValue : ∀ above socket below,
    Keeps P (Act.edit (σ := σ) (Edit.connectValue above socket below))
  connectNext : ∀ above below, Keeps P (Act.edit (σ := σ) (Edit.connectNext above below))

section

variable {P : Scene σ → Prop} {a : Audience σ} {given : Value → Prop}
  (tell : ∀ n, Keeps P (Act.tell a n)) (hb : Builds P given)

include tell hb

theorem keeps_place {h : Head} (hi : given h.id) : Keeps P (place a h) := by
  unfold place
  cases h.type with
  | none => exact Keeps.throw _
  | some type =>
      refine (Act.keeps_create tell (hb.create _ _ _ _ hi)).bind fun id => ?_
      dsimp only
      split
      · exact (hb.disable id).bind fun _ => Keeps.pure id
      · exact Keeps.pure id

end

section

variable {P : Scene σ → Prop} {a : Audience σ} {given : Value → Prop}

mutual

theorem keeps_grow (tell : ∀ n, Keeps P (Act.tell a n)) (hb : Builds P given) :
    ∀ e : Entry, (∀ id ∈ e.ids, given id) → Keeps P (grow a e)
  | .fault e, _ => Keeps.throw e
  | .block h inputs, hi => by
    unfold grow
    unfold Entry.ids at hi
    refine (keeps_place tell hb (hi _ List.mem_cons_self)).bind fun id => ?_
    refine (keeps_growInputs tell hb id inputs fun i hm => hi i (List.mem_cons_of_mem _ hm)).bind ?_
    exact fun _ => Keeps.pure id

theorem keeps_growInputs (tell : ∀ n, Keeps P (Act.tell a n)) (hb : Builds P given) (id : Key) :
    ∀ inputs : List (Key × Option Entry), (∀ id ∈ idsOfInputs inputs, given id) →
      Keeps P (growInputs a id inputs)
  | [], _ => Keeps.pure ()
  | (socket, e) :: rest, hi => by
    unfold growInputs
    unfold idsOfInputs at hi
    refine (keeps_growInput tell hb id socket e fun i hm => hi i (List.mem_append_left _ hm)).bind ?_
    exact fun _ => keeps_growInputs tell hb id rest fun i hm => hi i (List.mem_append_right _ hm)

theorem keeps_growInput (tell : ∀ n, Keeps P (Act.tell a n)) (hb : Builds P given)
    (id socket : Key) :
    ∀ e : Option Entry, (∀ id ∈ idsOfInput e, given id) → Keeps P (growInput a id socket e)
  | none, _ => Keeps.throw _
  | some e, hi => by
    unfold growInput
    unfold idsOfInput at hi
    exact (keeps_grow tell hb e hi).bind fun child =>
      Act.keeps_perform tell (hb.connectValue id (.ofKey socket) child)

end

variable (tell : ∀ n, Keeps P (Act.tell a n)) (hb : Builds P given)

include tell hb

theorem keeps_growAfter {es : List Entry} (hi : ∀ id ∈ es.flatMap Entry.ids, given id)
    (previous : Key) : Keeps P (growAfter a previous es) := by
  induction es generalizing previous with
  | nil => exact Keeps.pure ()
  | cons e es ih =>
      rw [List.flatMap_cons] at hi
      refine (keeps_grow tell hb e fun i hm => hi i (List.mem_append_left _ hm)).bind fun id => ?_
      refine (Act.keeps_perform tell (hb.connectNext previous id)).bind fun _ => ?_
      exact ih (fun i hm => hi i (List.mem_append_right _ hm)) id

theorem keeps_growStrand {s : Strand} (hi : ∀ id ∈ s.ids, given id) :
    Keeps P (growStrand a s) := by
  unfold Strand.ids at hi
  refine (keeps_grow tell hb s.top fun i hm => hi i (List.mem_append_left _ hm)).bind fun top => ?_
  refine (keeps_growAfter tell hb (fun i hm => hi i (List.mem_append_right _ hm)) top).bind ?_
  exact fun _ => Keeps.pure top

theorem keeps_growAll {ss : List Strand} (hi : ∀ id ∈ ss.flatMap Strand.ids, given id) :
    Keeps P (growAll a ss) := by
  induction ss with
  | nil => exact Keeps.pure []
  | cons s ss ih =>
      rw [List.flatMap_cons] at hi
      refine (keeps_growStrand tell hb fun i hm => hi i (List.mem_append_left _ hm)).bind ?_
      intro top
      exact (ih fun i hm => hi i (List.mem_append_right _ hm)).bind fun tops =>
        Keeps.pure (top :: tops)

/-- Rebuilding keeps what the edits by which it is done keep. -/
theorem keeps_rebuild {document : Value} (hi : ∀ strands, outline document = .ok strands →
    ∀ id ∈ strands.flatMap Strand.ids, given id) : Keeps P (rebuild a document) := by
  unfold rebuild
  split
  · exact Keeps.throw _
  · rename_i strands hs
    exact Act.keeps_mapError (keeps_growAll tell hb (hi strands hs))

end

end Snapshot

/-! ### Loading -/

namespace Archive

variable {P : Scene σ → Prop} {a : Audience σ}

/-- Whether a stored text gives an id to a block; `null` stands for none. -/
def Gives (text : String) (id : Value) : Prop :=
  ∃ document strands, Json.read text = .ok document ∧ Snapshot.outline document = .ok strands ∧
    id ∈ strands.flatMap Snapshot.Strand.ids

/-- Whether a text is what a load would find. -/
def Stored (archive : Archive) (host : Host) (text : String) : Prop :=
  ∃ host', archive.slots.get archive.key host = .ok (some text) host'

/-- What loading does not change, besides what rebuilding does not change. -/
structure Loads (P : Scene σ → Prop) (a : Audience σ) : Prop where
  tell : ∀ n, Keeps P (Act.tell a n)
  delete : ∀ k, Keeps P (Act.edit (σ := σ) (Edit.delete k false))
  host : ∀ s host, P s → P { s with host }

theorem keeps_restore (tell : ∀ n, Keeps P (Act.tell a n)) {text : String}
    (hb : Snapshot.Builds P (Gives text)) : Keeps P (restore a text) := by
  unfold restore
  split
  · exact Keeps.throw _
  · rename_i document hd
    refine (Snapshot.keeps_rebuild tell hb fun strands hs id hid => ?_).bind fun _ => Keeps.pure ()
    exact ⟨document, strands, hd, hs, hid⟩

theorem Loads.note (hl : Loads P a) (level : Level) (area : Area) (text : String) :
    Keeps P (Act.note (σ := σ) level area text) := fun s hs =>
  Ends.modify (hl.host s _ hs)

theorem keeps_replace (hl : Loads P a) (archive : Archive) {text : String}
    (hb : Snapshot.Builds P (Gives text)) : Keeps P (archive.replace a text) := by
  have clear := Act.keeps_clear hl.tell hl.delete
  refine clear.bind fun _ => (Act.keeps_attempt (keeps_restore hl.tell hb)).bind fun r => ?_
  cases r with
  | ok _ => exact Keeps.pure true
  | error e =>
      dsimp only
      split
      · exact (hl.note _ _ _).bind fun _ => clear.bind fun _ => Keeps.pure false
      · exact Keeps.throw e

/-- Loading keeps what a quiet replacement of the workspace keeps. -/
theorem ends_load (hl : Loads P a) (archive : Archive) {s : Scene σ} (hs : P s)
    (hr : ∀ text, archive.Stored s.host text → Keeps P (Act.quietly (archive.replace a text))) :
    Ends (archive.load a) s (fun _ t => P t) fun _ t => P t := by
  unfold load
  refine Ends.bind (Act.ends_attempt (Act.ends_onHost ?_))
  refine (Ends.self _ _).mono (fun found host hfound => ?_) fun e host _ => ?_
  · have hs' := hl.host s host hs
    cases found with
    | none => exact Ends.pure hs'
    | some text =>
        refine ((hr text ⟨host, hfound⟩).bind fun restored => ?_) _ hs'
        cases restored with
        | false => exact Keeps.pure false
        | true =>
            refine Keeps.get.bind fun t => (hl.note _ _ _).bind fun _ => ?_
            exact (hl.tell _).bind fun _ => Keeps.pure true
  · have hs' := hl.host s host hs
    cases e with
    | damage d => exact ((hl.note _ _ _).bind fun _ => Keeps.pure false) _ hs'
    | _ => exact Ends.throw hs'

/-- Loading keeps what rebuilding keeps, where it does not matter how often changes are kept from
the audience. -/
theorem Loads.ends_load (hl : Loads P a)
    (hm : ∀ (s : Scene σ) muted, P s → P { s with workspace := { s.workspace with muted } })
    (archive : Archive) {s : Scene σ} (hs : P s)
    (hb : ∀ text, archive.Stored s.host text → Snapshot.Builds P (Gives text)) :
    Ends (archive.load a) s (fun _ t => P t) fun _ t => P t :=
  Archive.ends_load hl archive hs fun text ht =>
    Act.keeps_quietly (fun _ h => Ends.modify (hm _ _ h)) (fun _ h => Ends.modify (hm _ _ h))
      (keeps_replace hl archive (hb text ht))

end Archive

end Blockwork
