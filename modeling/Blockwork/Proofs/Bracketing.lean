import Blockwork.Proofs.Erasing
import Blockwork.Proofs.Overtaking
import Blockwork.Proofs.Painting

/-!
# Statements between their highlights

To prepare a program for highlighting only adds highlights (`Program.instrument_only_highlights`).
While it is run over a workspace in which no block is highlighted, at most one block is: the one that
the steps to come restore (`Op.mark`).  A step that highlights or restores a block finds it so
(`Workspace.LitOnly`) and shows itself once if the block is there, and plain steps do not
(`through_shown`); so what the run has shown can be read off its steps.  At a moment among the steps
of a statement (`Fragment.moment`) these are both changes of colour of each statement before it and
the first one of its own.  That the lines and waits until then are those of the program itself is
said for runs of any steps (`sameEffects_through`).
-/

namespace Blockwork

/-! ### Highlights that are seen -/

/-- The changes of colour of a trace, each by its kind and its block. -/
def Trace.events (r : Trace) : List (Glow.Kind × Value) :=
  r.glows.toList.map fun g => (g.kind, g.block)

/-- Whether there is a block under an id. -/
def Workspace.hasBlock (w : Workspace) (id : Value) : Bool :=
  match id.key? with
  | some k => (w.find? k).isSome
  | none => false

/-- The changes of colour by which a step shows itself. -/
def Op.shown (w : Workspace) : Op → List (Glow.Kind × Value)
  | .highlight id => if w.hasBlock id then [(.activate, id)] else []
  | .restore id => if w.hasBlock id then [(.restore, id)] else []
  | _ => []

theorem Workspace.hasBlock_of_toKey {w : Workspace} {id : Value} {k : Key} (hk : id.toKey = .ok k) :
    w.hasBlock id = (w.find? k).isSome := by
  rw [hasBlock, Value.key?_of_toKey hk]

/-- A change of colour that is noted last. -/
theorem Highlighter.ends_announce_seen {h : Highlighter} {kind : Glow.Kind} {id colour : Value}
    {s : Scene Trace} {good : Unit → Scene Trace → Prop} {bad : Error → Scene Trace → Prop}
    (hg : ∀ u : Scene Trace, u.workspace = s.workspace →
      u.audience.events = s.audience.events ++ [(kind, id)] → good () u) :
    Ends (h.announce kind id colour) s good bad := by
  refine Ends.bind (Ends.modify (Ends.modify (hg _ rfl ?_)))
  unfold Trace.events
  rw [Array.toList_push, List.map_append]
  rfl

theorem Value.names_iff_beq {v : Value} {j k : Key} (hk : v.toKey = .ok k) :
    v.Names j ↔ (k == j) = true := by
  constructor
  · rintro ⟨i, hi, hj⟩
    rwa [Except.ok.inj (hk.symm.trans hi)]
  · exact fun hj => ⟨k, hk, hj⟩

namespace Workspace

/-- Whether the block of an id is highlighted, if there is one, and no other, in a workspace with
the blocks of another one and with colours that can be lightened. -/
structure LitOnly (shade : Shade) (w₀ w : Workspace) (marked : Option Value) : Prop where
  bright : w.Bright shade
  lit : ∀ k b, w.find? k = some b → (b.isHighlighted = true ↔ ∃ id ∈ marked, id.Names k)
  there : ∀ k, (w.find? k).isSome = (w₀.find? k).isSome

variable {shade : Shade} {w₀ w : Workspace} {marked : Option Value} {id : Value} {k : Key} {b : Block}

theorem isSome_find?_modify (w : Workspace) (j k : Key) (f : Block → Block) :
    ((w.table.modify k f).find? j).isSome = (w.find? j).isSome := by
  rw [Table.find?_modify]
  split
  · rw [Option.isSome_map]
    rfl
  · rfl

theorem LitOnly.hasBlock (h : LitOnly shade w₀ w marked) (hk : id.toKey = .ok k) :
    w₀.hasBlock id = (w.find? k).isSome := by
  rw [hasBlock_of_toKey hk, h.there]

theorem Unlit.litOnly (h : w.Unlit) (hb : w.Bright shade) : LitOnly shade w w none where
  bright := hb
  lit k b hfind := ⟨fun hlit => (h k b hfind hlit).elim, fun ⟨_, hid, _⟩ => nomatch hid⟩
  there _ := rfl

/-- Where there is no block under an id, it makes no difference whether it is marked. -/
theorem litOnly_absent (hk : id.toKey = .ok k) (hnone : w.find? k = none) :
    LitOnly shade w₀ w (some id) ↔ LitOnly shade w₀ w none := by
  have hno {j : Key} {b : Block} (hb : w.find? j = some b) :
      (∃ i ∈ some id, i.Names j) ↔ ∃ i ∈ (none : Option Value), i.Names j := by
    refine ⟨?_, fun ⟨_, hi, _⟩ => nomatch hi⟩
    rintro ⟨_, hi, hnames⟩
    obtain rfl := Option.some.inj hi
    have hkj := (Value.names_iff_beq hk).mp hnames
    rw [show w.find? j = w.find? k from (w.table.find?_congr hkj).symm, hnone] at hb
    cases hb
  exact ⟨fun h => ⟨h.bright, fun j b hb => (h.lit j b hb).trans (hno hb), h.there⟩,
    fun h => ⟨h.bright, fun j b hb => (h.lit j b hb).trans (hno hb).symm, h.there⟩⟩

end Workspace

namespace Highlighter

open Workspace (LitOnly)

variable {h : Highlighter} {id : Value} {k : Key} {s : Scene Trace} {w : Workspace}

/-- A block that is highlighted is shown so and marked, if it is there. -/
theorem ends_activate_litOnly (hk : id.toKey = .ok k) (hs : LitOnly h.shade w s.workspace none) :
    Ends (h.activate id) s
      (fun _ u => LitOnly h.shade w u.workspace (some id) ∧ u.audience.events =
        s.audience.events ++ if w.hasBlock id then [(.activate, id)] else []) fun _ _ => False := by
  rw [hs.hasBlock hk]
  unfold activate
  refine Ends.bind (Act.ends_ofExcept_ok hk (Ends.bind (Ends.get ?_)))
  cases hfind : s.workspace.find? k with
  | none => exact Ends.pure ⟨(Workspace.litOnly_absent hk hfind).mpr hs, (List.append_nil _).symm⟩
  | some b =>
      obtain ⟨c, hc⟩ := hs.bright k b hfind
      have hne := Shade.ne_null_of_lightenText hc
      refine Ends.bind (Act.ends_edit (Ends.modify (Ends.bind (Act.ends_ofExcept_ok hc ?_))))
      refine Ends.bind (Act.ends_edit (Ends.modify (Ends.bind
        (ends_announce_seen fun u hw hevents => Ends.pure ⟨?_, hevents⟩))))
      rw [hw]
      refine ⟨hs.bright.paint hfind hne (.text c), fun j d hd => ?_, fun j => ?_⟩
      · obtain ⟨hkj, c', -, rfl⟩ | ⟨hkj, hd⟩ :=
          Workspace.find?_update (Workspace.find?_update_twice.symm.trans hd)
        · exact ⟨fun _ => ⟨id, rfl, k, hk, hkj⟩, fun _ => bne_iff_ne.mpr hne⟩
        · refine ⟨fun hlit => ?_, fun ⟨i, hi, hnames⟩ => ?_⟩
          · obtain ⟨i, hi, -⟩ := (hs.lit j d hd).mp hlit
            cases hi
          · obtain rfl := Option.some.inj hi
            rw [Value.names_iff_beq hk, hkj] at hnames
            cases hnames
      · rw [← hs.there j]
        exact (Workspace.isSome_find?_modify _ j k _).trans
          (Workspace.isSome_find?_modify s.workspace j k _)

/-- A block that is marked is shown as restored, if it is there, and no block is marked then. -/
theorem ends_restore_litOnly (hk : id.toKey = .ok k) (hs : LitOnly h.shade w s.workspace (some id)) :
    Ends (h.restore id) s
      (fun _ u => LitOnly h.shade w u.workspace none ∧ u.audience.events =
        s.audience.events ++ if w.hasBlock id then [(.restore, id)] else []) fun _ _ => False := by
  rw [hs.hasBlock hk]
  unfold restore
  refine Ends.bind (Act.ends_ofExcept_ok hk (Ends.bind (Ends.get ?_)))
  cases hfind : s.workspace.find? k with
  | none => exact Ends.pure ⟨(Workspace.litOnly_absent hk hfind).mp hs, (List.append_nil _).symm⟩
  | some b =>
      have hlit : b.isHighlighted = true := (hs.lit k b hfind).mpr ⟨id, rfl, k, hk, BEq.rfl⟩
      rw [Option.filter_some, if_pos hlit]
      refine Ends.bind (Act.ends_edit (Ends.modify (Ends.bind
        (ends_announce_seen fun u hw hevents => Ends.pure ⟨?_, hevents⟩))))
      rw [hw]
      refine ⟨hs.bright.unpaint hfind hlit, fun j d hd => ⟨fun hlit => ?_, ?_⟩, fun j => ?_⟩
      · obtain ⟨-, c, -, rfl⟩ | ⟨hkj, hd⟩ := Workspace.find?_update hd
        · cases hlit
        · obtain ⟨i, hi, hnames⟩ := (hs.lit j d hd).mp hlit
          obtain rfl := Option.some.inj hi
          rw [Value.names_iff_beq hk, hkj] at hnames
          cases hnames
      · rintro ⟨_, hi, -⟩
        cases hi
      · rw [← hs.there j]
        exact Workspace.isSome_find?_modify s.workspace j k _

end Highlighter

/-! ### Runs -/

section

open Workspace (LitOnly)

variable {t : Terms} {w : Workspace} {s : Scene Trace} {op : Op} {ops ran rest : List Op}
  {g : Highlighter}

/-- A plain step changes no colours. -/
theorem Op.keeps_perform_unseen (ho : op.isPlain = true) (w : Workspace)
    (es : List (Glow.Kind × Value)) :
    Keeps (fun s : Scene Trace => s.workspace = w ∧ s.audience.events = es) (op.perform t) := by
  have emitted {α : Type} (e : Emit α) :
      Keeps (fun s : Scene Trace => s.workspace = w ∧ s.audience.events = es) (Run.emit e) :=
    fun _ hs => Run.ends_emit ((Ends.self _ _).mono (fun _ _ _ => hs) fun _ _ _ => hs)
  cases op with
  | call name args => exact (emitted _).bind fun _ => Keeps.pure _
  | expr e => exact (emitted _).bind fun _ => Keeps.pure _
  | sleep e =>
      refine (emitted _).bind fun v => (Act.keeps_ofExcept _).bind fun x => Keeps.get.bind ?_
      exact fun _ => Keeps.bind (fun _ hs => Ends.modify hs) fun _ => Act.keeps_ofExcept _
  | highlight _ => cases ho
  | restore _ => cases ho

/-- Whether a scene comes of a step: the step has shown itself, and the block is highlighted that the
steps after it restore. -/
structure Op.Seen (shade : Shade) (w : Workspace) (op : Op) (ops : List Op) (s u : Scene Trace) :
    Prop where
  lit : LitOnly shade w u.workspace (mark ops)
  events : u.audience.events = s.audience.events ++ op.shown w

/-- One step shows itself; if it fails, or pauses the run, it is a plain one. -/
theorem Op.ends_perform_seen (hg : t.highlighter = some g) (hk : op.Keyed)
    (hp : Paired (op :: ops)) (hs : LitOnly g.shade w s.workspace (mark (op :: ops))) :
    Ends (op.perform t) s
      (fun pause u => op.Seen g.shade w ops s u ∧ (op.isPlain = true ∨ pause = .over))
      fun _ _ => op.isPlain = true := by
  have plain (ho : op.isPlain = true) (hshown : op.shown w = []) : Ends (op.perform t) s
      (fun pause u => op.Seen g.shade w ops s u ∧ (op.isPlain = true ∨ pause = .over))
      fun _ _ => op.isPlain = true := by
    rw [mark_cons_of_isPlain ho] at hs
    refine (keeps_perform_unseen ho _ _ s ⟨rfl, rfl⟩).mono (fun pause u hu => ⟨?_, .inl ho⟩)
      fun _ _ _ => ho
    exact ⟨hu.1 ▸ hs, by rw [hshown, List.append_nil, hu.2]⟩
  cases op with
  | highlight id =>
      obtain ⟨k, hk⟩ := Value.exists_toKey_of_isSome hk
      unfold perform
      rw [hg]
      refine Ends.bind ((Highlighter.ends_activate_litOnly hk hs).mono
        (fun _ u hu => Ends.pure ⟨⟨?_, hu.2⟩, .inr rfl⟩) fun _ _ he => he.elim)
      exact hp.1 ▸ hu.1
  | restore id =>
      obtain ⟨k, hk⟩ := Value.exists_toKey_of_isSome hk
      unfold perform
      rw [hg]
      refine Ends.bind ((Highlighter.ends_restore_litOnly hk hs).mono
        (fun _ u hu => Ends.pure ⟨⟨?_, hu.2⟩, .inr rfl⟩) fun _ _ he => he.elim)
      exact hp.1 ▸ hu.1
  | call name args => exact plain rfl rfl
  | expr e => exact plain rfl rfl
  | sleep e => exact plain rfl rfl

/-- **The steps of a run show themselves one after the other**, as far as the run comes; where it
stops before its end, it stops at a plain step. -/
theorem through_shown (hg : t.highlighter = some g) {clock : Clock} (hc : clock.Steady t.generation)
    (hk : ∀ op ∈ ran, op.Keyed) (hp : Op.Paired (ran ++ rest))
    (hs : LitOnly g.shade w s.workspace (Op.mark (ran ++ rest))) (waits : List (Option Error)) :
    (answerOf (through t clock waits ran) s = .ok .finished ∧
      (stateAfter (through t clock waits ran) s).audience.events =
        s.audience.events ++ ran.flatMap (Op.shown w)) ∨
    (answerOf (through t clock waits ran) s ≠ .ok .finished ∧
      ∃ before op after, ran = before ++ op :: after ∧ op.isPlain = true ∧
        answerOf (through t clock waits before) s = .ok .finished ∧
        answerOf (through t clock waits (before ++ [op])) s ≠ .ok .finished ∧
        (stateAfter (through t clock waits ran) s).audience.events =
          s.audience.events ++ before.flatMap (Op.shown w)) := by
  -- step by step: the block that is marked is the one that the steps to come restore
  induction ran generalizing waits s with
  | nil =>
      refine .inl ⟨?_, ?_⟩
      · rw [answerOf, through_nil]
      · rw [stateAfter, through_nil]
        exact (List.append_nil _).symm
  | cons op ran ih =>
      rw [List.forall_mem_cons] at hk
      have hstep := Op.ends_perform_seen hg hk.1 hp hs
      obtain ⟨waits', s', pause, hperform, hgo⟩ | hstop := through_step hc op waits s
      · obtain ⟨hseen, -⟩ := (Ends.of_ok hperform).mp hstep
        have hanswer (ops : List Op) : answerOf (through t clock waits (op :: ops)) s =
            answerOf (through t clock waits' ops) s' := by rw [answerOf, answerOf, hgo]
        have hafter : stateAfter (through t clock waits (op :: ran)) s =
            stateAfter (through t clock waits' ran) s' := by rw [stateAfter, stateAfter, hgo]
        rw [hanswer, hafter, List.flatMap_cons]
        obtain ⟨hfinished, hrest⟩ | ⟨hopen, before, op', after, rfl, ho, hbefore, hstops, hrest⟩ :=
          ih hk.2 (@Op.Paired.of_append [op] _ hp) hseen.lit waits'
        · refine .inl ⟨hfinished, ?_⟩
          rw [hrest, hseen.events, List.append_assoc]
        · refine .inr ⟨hopen, op :: before, op', after, rfl, ho, ?_, ?_, ?_⟩
          · rw [hanswer]
            exact hbefore
          · rw [List.cons_append, hanswer]
            exact hstops
          · rw [hrest, hseen.events, List.flatMap_cons, List.append_assoc]
      · have ho : op.isPlain = true := by
          by_contra hmarking
          have hover : Ends (op.perform t) s (fun pause _ => pause = .over) fun _ _ => False :=
            hstep.mono (fun _ _ h => h.2.resolve_left hmarking) fun _ _ h => hmarking h
          obtain ⟨pause, s', hperform, rfl⟩ := hover.exists_ok
          refine (hstop []).1 ?_
          rw [answerOf, through_cons hc]
          simp only [Bind.bind, EStateM.bind, hperform, onward, if_pos, through_nil]
        refine .inr ⟨(hstop ran).1, [], op, ran, rfl, ho, ?_, (hstop []).1, ?_⟩
        · rw [answerOf, through_nil]
        · rw [(hstop ran).2]
          exact (((Op.keeps_perform_unseen ho _ _).stateAfter ⟨rfl, rfl⟩).2).trans
            (List.append_nil _).symm

end

/-! ### Fragments -/

theorem Op.shown_of_isPlain {op : Op} (h : op.isPlain = true) (w : Workspace) : op.shown w = [] := by
  cases op with
  | highlight _ => cases h
  | restore _ => cases h
  | _ => rfl

theorem Op.flatMap_shown {ops : List Op} (h : ∀ op ∈ ops, op.isPlain = true) (w : Workspace) :
    ops.flatMap (shown w) = [] :=
  List.flatMap_eq_nil_iff.mpr fun op hop => shown_of_isPlain (h op hop) w

theorem Op.keyed_of_isPlain {op : Op} (h : op.isPlain = true) : op.Keyed := by
  cases op with
  | highlight _ => cases h
  | restore _ => cases h
  | _ => trivial

namespace Fragment

/-- The step before those of a statement that is prepared for highlighting. -/
def lead (f : Fragment) : List Op := if f.isStatement then [.highlight f.block] else []

/-- The step after those of a statement that is prepared for highlighting. -/
def trail (f : Fragment) : List Op := if f.isStatement then [.restore f.block] else []

/-- How a statement shows itself before its steps, if its block is there. -/
def opening (w : Workspace) (f : Fragment) : List (Glow.Kind × Value) :=
  if f.isStatement && w.hasBlock f.block then [(.activate, f.block)] else []

/-- How a statement shows itself around its steps, if its block is there. -/
def brackets (w : Workspace) (f : Fragment) : List (Glow.Kind × Value) :=
  if f.isStatement && w.hasBlock f.block then [(.activate, f.block), (.restore, f.block)] else []

variable {f : Fragment} {fs done later : List Fragment} {w : Workspace}

theorem instrument_ops_eq (f : Fragment) : f.instrument.ops = f.lead ++ f.ops ++ f.trail := by
  rw [instrument_ops, lead, trail]
  split
  · rfl
  · rw [List.nil_append, List.append_nil]

theorem opsOf_append (fs gs : List Fragment) : opsOf (fs ++ gs) = opsOf fs ++ opsOf gs := by
  rw [opsOf, List.map_append, List.flatMap_append, opsOf, opsOf]

theorem flatMap_lead (f : Fragment) (w : Workspace) : f.lead.flatMap (Op.shown w) = f.opening w := by
  unfold lead opening
  cases f.isStatement with
  | true => exact List.append_nil _
  | false => rfl

theorem Plain.flatMap_instrument (h : f.Plain) (w : Workspace) :
    f.instrument.ops.flatMap (Op.shown w) = f.brackets w := by
  rw [instrument_ops_eq, List.flatMap_append, List.flatMap_append, Op.flatMap_shown h,
    List.append_nil]
  unfold lead trail brackets
  cases f.isStatement with
  | false => rfl
  | true =>
      simp only [if_true, List.flatMap_cons, List.flatMap_nil, List.append_nil, Op.shown,
        Bool.true_and]
      split <;> rfl

theorem flatMap_opsOf (h : ∀ f ∈ fs, f.Plain) (w : Workspace) :
    (opsOf fs).flatMap (Op.shown w) = fs.flatMap (·.brackets w) := by
  induction fs with
  | nil => rfl
  | cons f fs ih =>
      rw [List.forall_mem_cons] at h
      rw [opsOf_cons, List.flatMap_append, h.1.flatMap_instrument, ih h.2, List.flatMap_cons]

theorem keyed_opsOf (h : ∀ f ∈ fs, f.Plain)
    (hk : ∀ f ∈ fs, f.isStatement = true → f.block.key?.isSome = true) :
    ∀ op ∈ opsOf fs, op.Keyed := by
  intro op hop
  obtain ⟨_, hmem, hop⟩ := List.mem_flatMap.mp hop
  obtain ⟨f, hf, rfl⟩ := List.mem_map.mp hmem
  rw [instrument_ops] at hop
  split at hop
  · rename_i hs
    rcases List.mem_append.mp hop with hop | hop
    · rcases List.mem_cons.mp hop with rfl | hop
      · exact hk f hf hs
      · exact Op.keyed_of_isPlain (h f hf op hop)
    · obtain rfl := List.mem_singleton.mp hop
      exact hk f hf hs
  · exact Op.keyed_of_isPlain (h f hf op hop)

/-- A plain step among those of fragments that are prepared for highlighting belongs to one of
them. -/
theorem exists_moment (h : ∀ f ∈ fs, f.Plain) {before after : List Op} {op : Op}
    (ho : op.isPlain = true) (hops : opsOf fs = before ++ op :: after) :
    ∃ done f later ran rest, fs = done ++ f :: later ∧ f.ops = ran ++ op :: rest ∧
      before = opsOf done ++ f.lead ++ ran := by
  induction fs generalizing before with
  | nil => simp [opsOf] at hops
  | cons f fs ih =>
      rw [List.forall_mem_cons] at h
      have next {before : List Op} (hops : opsOf fs = before ++ op :: after) :
          ∃ done g later ran rest, f :: fs = done ++ g :: later ∧ g.ops = ran ++ op :: rest ∧
            f.instrument.ops ++ before = opsOf done ++ g.lead ++ ran := by
        obtain ⟨done, g, later, ran, rest, rfl, hg, rfl⟩ := ih h.2 hops
        refine ⟨f :: done, g, later, ran, rest, rfl, hg, ?_⟩
        rw [opsOf_cons]
        simp only [List.append_assoc]
      rw [opsOf_cons] at hops
      obtain ⟨before, rfl, hrest⟩ | ⟨left, hf, hrest⟩ := List.append_eq_append_iff.mp hops
      · exact next hrest
      · cases left with
        | nil =>
            rw [List.append_nil] at hf
            have hnext := @next [] hrest.symm
            rwa [List.append_nil, hf] at hnext
        | cons op' left =>
            obtain ⟨rfl, -⟩ := List.cons.inj hrest
            rw [instrument_ops] at hf
            unfold lead
            split at hf
            · rename_i hs
              obtain ⟨ran, rest, rfl, -, hown⟩ := exists_left ho hf
              refine ⟨[], f, fs, ran, rest, rfl, hown, ?_⟩
              rw [if_pos hs]
              rfl
            · rename_i hs
              refine ⟨[], f, fs, before, left, rfl, hf, ?_⟩
              rw [if_neg hs]
              rfl

/-- The steps of a program that is prepared for highlighting up to a moment among those of one
fragment, after others are done. -/
def moment (done : List Fragment) (f : Fragment) (ran : List Op) : List Op :=
  opsOf done ++ f.lead ++ ran

theorem opsOf_eq_moment {ran rest : List Op} (hf : f.ops = ran ++ rest) :
    opsOf (done ++ f :: later) = f.moment done ran ++ (rest ++ f.trail ++ opsOf later) := by
  rw [opsOf_append, opsOf_cons, instrument_ops_eq, hf, moment]
  simp only [List.append_assoc]

/-- Without the steps that highlight and restore blocks these are the steps up to that moment. -/
theorem filter_moment (h : ∀ f ∈ done, f.Plain) {ran : List Op}
    (hran : ∀ op ∈ ran, op.isPlain = true) :
    (f.moment done ran).filter (·.isPlain) = done.flatMap (·.ops) ++ ran := by
  have hlead : f.lead.filter (·.isPlain) = [] := by
    unfold lead
    split <;> rfl
  rw [moment, List.filter_append, List.filter_append, filter_opsOf h, hlead, List.append_nil,
    List.filter_eq_self.mpr hran]

theorem flatMap_moment (h : ∀ f ∈ done, f.Plain) {ran : List Op}
    (hran : ∀ op ∈ ran, op.isPlain = true) (w : Workspace) :
    (f.moment done ran).flatMap (Op.shown w) = done.flatMap (·.brackets w) ++ f.opening w := by
  rw [moment, List.flatMap_append, List.flatMap_append, flatMap_opsOf h, flatMap_lead,
    Op.flatMap_shown hran, List.append_nil]

end Fragment

/-! ### Programs -/

/-- Whether a program that is prepared for highlighting and run by itself from a scene does what it
does without, and shows the block of each statement around the steps of that statement. -/
structure Program.Brackets (p : Program) (t : Terms) (clock : Clock) (waits : List (Option Error))
    (s : Scene Trace) : Prop where
  /-- Both runs come to the same, with the same lines and waits. -/
  same : SameEffects (through t clock waits p.instrument.ops) (through t clock waits p.ops) s
  /-- At its end the run has shown each statement whose block is there, one after the other. -/
  finished : answerOf (through t clock waits p.ops) s = .ok .finished →
    (stateAfter (through t clock waits p.instrument.ops) s).audience.events =
      s.audience.events ++ p.fragments.flatMap (·.brackets s.workspace)
  /-- Where it stops before its end it has shown those that were done, and has begun to show the
  one in which it stops. -/
  stopped : answerOf (through t clock waits p.ops) s ≠ .ok .finished →
    ∃ done f later ran op rest, p.fragments = done ++ f :: later ∧ f.ops = ran ++ op :: rest ∧
      answerOf (through t clock waits (done.flatMap (·.ops) ++ ran)) s = .ok .finished ∧
      answerOf (through t clock waits (done.flatMap (·.ops) ++ ran ++ [op])) s ≠ .ok .finished ∧
      (stateAfter (through t clock waits p.instrument.ops) s).audience.events =
        s.audience.events ++ done.flatMap (·.brackets s.workspace) ++ f.opening s.workspace
  /-- At each moment among the steps of a fragment it has put out and asked for what the program has
  at that moment, and has shown the statements that were done and begun to show this one. -/
  between : ∀ done f later ran rest, p.fragments = done ++ f :: later → f.ops = ran ++ rest →
    SameEffects (through t clock waits (f.moment done ran))
      (through t clock waits (done.flatMap (·.ops) ++ ran)) s ∧
    (answerOf (through t clock waits (done.flatMap (·.ops) ++ ran)) s = .ok .finished →
      (stateAfter (through t clock waits (f.moment done ran)) s).audience.events =
        s.audience.events ++ done.flatMap (·.brackets s.workspace) ++ f.opening s.workspace ∧
      ∃ left waits', p.instrument.ops = f.moment done ran ++ left ∧
        through t clock waits p.instrument.ops s = through t clock waits' left
          (stateAfter (through t clock waits (f.moment done ran)) s))

section

variable {p : Program} {t : Terms} {g : Highlighter} {clock : Clock} {s : Scene Trace}
  {done later : List Fragment} {f : Fragment} {ran rest : List Op}

theorem Program.plain_moment (hp : ∀ f ∈ p.fragments, f.Plain)
    (hfs : p.fragments = done ++ f :: later) (hf : f.ops = ran ++ rest) :
    (∀ f ∈ done, f.Plain) ∧ ∀ op ∈ ran, op.isPlain = true := by
  rw [hfs] at hp
  refine ⟨fun f hf => hp f (List.mem_append_left _ hf), fun op hop => ?_⟩
  exact hp f (List.mem_append_right _ List.mem_cons_self) op (hf ▸ List.mem_append_left _ hop)

theorem Program.sameEffects_instrument (hp : ∀ f ∈ p.fragments, f.Plain)
    (hk : ∀ f ∈ p.fragments, f.isStatement = true → f.block.key?.isSome = true)
    (hg : t.highlighter = some g) (hc : clock.Steady t.generation) (waits : List (Option Error))
    (hb : s.workspace.Bright g.shade) :
    SameEffects (through t clock waits p.instrument.ops) (through t clock waits p.ops) s := by
  have heffects := sameEffects_through hg hc (Fragment.keyed_opsOf hp hk) waits hb
  rwa [Fragment.filter_opsOf hp, ← p.ops_instrument] at heffects

theorem Program.sameEffects_moment (hp : ∀ f ∈ p.fragments, f.Plain)
    (hk : ∀ f ∈ p.fragments, f.isStatement = true → f.block.key?.isSome = true)
    (hg : t.highlighter = some g) (hc : clock.Steady t.generation) (waits : List (Option Error))
    (hb : s.workspace.Bright g.shade) (hfs : p.fragments = done ++ f :: later)
    (hf : f.ops = ran ++ rest) :
    SameEffects (through t clock waits (f.moment done ran))
      (through t clock waits (done.flatMap (·.ops) ++ ran)) s := by
  obtain ⟨hdone, hran⟩ := plain_moment hp hfs hf
  rw [← Fragment.filter_moment hdone hran]
  refine sameEffects_through hg hc (fun op hop => Fragment.keyed_opsOf hp hk op ?_) waits hb
  rw [hfs, Fragment.opsOf_eq_moment hf]
  exact List.mem_append_left _ hop

/-- **Highlighting goes around the steps of each statement and does nothing else**, where no block is
highlighted and each has a colour that can be lightened. -/
theorem Program.brackets_through (hp : ∀ f ∈ p.fragments, f.Plain)
    (hk : ∀ f ∈ p.fragments, f.isStatement = true → f.block.key?.isSome = true)
    (hg : t.highlighter = some g) (hc : clock.Steady t.generation) (waits : List (Option Error))
    (hu : s.workspace.Unlit) (hb : s.workspace.Bright g.shade) : p.Brackets t clock waits s := by
  have hsame := sameEffects_instrument hp hk hg hc waits hb
  obtain ⟨hmark, hpaired⟩ := Fragment.mark_opsOf hp
  have hshown {ran rest : List Op} (hops : Fragment.opsOf p.fragments = ran ++ rest) :=
    @through_shown t s.workspace s ran rest g hg clock hc
      (fun op hop => Fragment.keyed_opsOf hp hk op (hops ▸ List.mem_append_left _ hop))
      (hops ▸ hpaired) (by rw [← hops, hmark]; exact hu.litOnly hb) waits
  constructor
  case same => exact hsame
  case finished =>
    intro hfinished
    rw [hsame.finished_iff, p.ops_instrument] at hfinished
    rw [p.ops_instrument]
    obtain ⟨-, hevents⟩ | ⟨hopen, -⟩ := hshown (List.append_nil _).symm
    · rw [hevents, Fragment.flatMap_opsOf hp]
    · exact absurd hfinished hopen
  case stopped =>
    intro hopen
    rw [Ne, hsame.finished_iff, p.ops_instrument] at hopen
    rw [p.ops_instrument]
    obtain ⟨hfinished, -⟩ | ⟨-, before, op, after, hops, ho, hbefore, hstops, hevents⟩ :=
      hshown (List.append_nil _).symm
    · exact absurd hfinished hopen
    · obtain ⟨done, f, later, ran, rest, hfs, hf, rfl⟩ := Fragment.exists_moment hp ho hops
      have hnext : f.ops = (ran ++ [op]) ++ rest := by rw [hf, List.append_assoc]; rfl
      obtain ⟨hdone, hran⟩ := plain_moment hp hfs hf
      refine ⟨done, f, later, ran, op, rest, hfs, hf,
        (sameEffects_moment hp hk hg hc waits hb hfs hf).finished_iff.mpr hbefore, ?_, ?_⟩
      · rw [List.append_assoc, Ne,
          (sameEffects_moment hp hk hg hc waits hb hfs hnext).finished_iff, Fragment.moment,
          ← List.append_assoc]
        exact hstops
      · rw [hevents, ← Fragment.moment, Fragment.flatMap_moment hdone hran, List.append_assoc]
  case between =>
    intro done f later ran rest hfs hf
    have hbetween := sameEffects_moment hp hk hg hc waits hb hfs hf
    refine ⟨hbetween, fun hfinished => ?_⟩
    rw [hbetween.finished_iff] at hfinished
    have hops : Fragment.opsOf p.fragments = f.moment done ran ++ _ :=
      hfs ▸ Fragment.opsOf_eq_moment hf
    obtain ⟨hdone, hran⟩ := plain_moment hp hfs hf
    obtain ⟨-, hevents⟩ | ⟨hopen, -⟩ := hshown hops
    · obtain ⟨waits', hrest⟩ := exists_through_append hc hfinished
      refine ⟨?_, _, waits', p.ops_instrument.trans hops, ?_⟩
      · rw [hevents, Fragment.flatMap_moment hdone hran, List.append_assoc]
      · rw [p.ops_instrument, hops, hrest]
    · exact absurd hfinished hopen

end

namespace Program

variable {p : Program} {t : Terms} {g h : Highlighter} {clock : Clock} {o d : Scene Desk}
  {s : Scene Trace}

/-- **Preparing a program for highlighting only adds highlights.**  Without them it is the program it
was; and run by itself over a workspace that comes of what happened at a desk, where no block is
highlighted, it does what the program does without them, while it highlights the block of each
statement before the steps of that statement and restores it after them.  The blocks need not be
there, but their ids are such as blocks can have. -/
theorem instrument_only_highlights (hp : ∀ f ∈ p.fragments, f.Plain) :
    (p.instrument.ops.filter (·.isPlain) = p.ops ∧ p.instrument.bare = p ∧
      p.instrument.definitions = p.definitions ∧ p.instrument.imports = p.imports) ∧
    ((∀ f ∈ p.fragments, f.isStatement = true → f.block.key?.isSome = true) →
      o.OpensWith h → h.shade.Whole → Scene.Handled h o d →
      s.workspace = d.workspace → s.workspace.Unlit →
      t.highlighter = some g → g.shade.Whole → clock.Steady t.generation →
      ∀ waits, p.Brackets t clock waits s) := by
  refine ⟨⟨?_, bare_instrument hp, rfl, rfl⟩, ?_⟩
  · rw [ops_instrument, Fragment.filter_opsOf hp]
    rfl
  · intro hk hopens hwhole hd hw hu hg hgwhole hc waits
    refine brackets_through hp hk hg hc waits hu fun k b hb => ?_
    obtain ⟨e, -, hpainted⟩ := hopens.colours_kept hwhole hd k b (hw ▸ hb)
    rw [hpainted.ownColour_eq]
    exact Shade.exists_lightenText hgwhole e.colour

/-- The program of one block that is there shows that block around its line. -/
theorem instrument_only_highlights_greeter :
    let p : Program := { Program.greeting with
      chains := [[{ block := .text "hi", type := .text "wait", ops := [.call (.text "greet") []] }]] }
    let h := Session.greeting.highlighter
    let s : Scene Trace := {
      workspace := (stateAfter Scene.creation.act Scene.hall).workspace
      audience := {} }
    (∀ f ∈ p.fragments, f.Plain) ∧
      p.Brackets { highlighter := some h, definitions := p.definitions, watched := true } [] [] s ∧
      (stateAfter (p.instrument.run (some h) (.int 0) []) s).audience.events =
        [(.activate, .text "hi"), (.restore, .text "hi")] := by
  intro p h s
  have hp : ∀ f ∈ p.fragments, f.Plain := by
    intro f hf op hop
    obtain rfl := List.mem_singleton.mp hf
    obtain rfl := List.mem_singleton.mp hop
    rfl
  obtain ⟨hlone, -⟩ := Scene.after_creation (o := Scene.hall) rfl rfl
  let t : Terms := { highlighter := some h, definitions := p.definitions, watched := true }
  have hbrackets : p.Brackets t [] [] s :=
    (instrument_only_highlights (o := Scene.hall) hp).2
      (fun f hf _ => by rw [List.mem_singleton.mp hf]; rfl)
      ⟨⟨_, _, rfl⟩, fun q hq => by rw [List.mem_singleton.mp hq], fun _ h => nomatch h⟩
      (fun _ => ⟨40, rfl⟩) (.single ⟨.event Scene.creation, rfl⟩) rfl (Scene.unlit_lone hlone) rfl
      (fun _ => ⟨40, rfl⟩) (Clock.steady_nil _) []
  have hfinished (u : Scene Trace) : answerOf (through t [] [] p.ops) u = .ok .finished := rfl
  have hthere : s.workspace.hasBlock (.text "hi") = true :=
    (Workspace.hasBlock_of_toKey rfl).trans (congrArg Option.isSome hlone.block?_self)
  have hafter : stateAfter (p.instrument.run (some h) (.int 0) []) s =
      stateAfter (through t [] [] p.instrument.ops) s := by
    rw [run_eq_through]
    change stateAfter (through t [] [] p.instrument.ops >>= fun _ => pure _) s = _
    unfold stateAfter
    simp only [Bind.bind, EStateM.bind]
    cases through t [] [] p.instrument.ops s <;> rfl
  refine ⟨hp, hbrackets, ?_⟩
  rw [hafter, hbrackets.finished (hfinished s)]
  change [] ++ (Fragment.brackets s.workspace _ ++ []) = _
  rw [Fragment.brackets, hthere]
  rfl

end Program

end Blockwork
