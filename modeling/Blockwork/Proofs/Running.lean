import Blockwork.Proofs.Fragments
import Blockwork.Proofs.Lightening
import Blockwork.Proofs.Singles
import Blockwork.Proofs.Stepping

/-!
# Running programs

A program whose steps are those of what a workspace asks for leaves the trace of that, also when the
blocks are highlighted meanwhile (`Carries.ends_run`).  What could stand in the way is that the
colour of a block cannot be lightened, but each block has a colour of its own for that all the time
(`Workspace.Bright`).
-/

namespace Blockwork

/-! ### Traces -/

namespace Deed

/-- The line that is asked for. -/
def line? : Deed → Option Line
  | .line text colour => some ⟨.text text, .text colour⟩
  | .sleep _ => none

/-- The lines that are asked for. -/
def lines (ds : List Deed) : List Line := ds.filterMap line?

/-- The waits that are asked for, each with the number of lines before it, where there have been `n`
lines already. -/
def naps : Nat → List Deed → List (Binary64 × Nat)
  | _, [] => []
  | n, .line _ _ :: ds => naps (n + 1) ds
  | n, .sleep seconds :: ds => (seconds, n) :: naps n ds

theorem lines_append (ds es : List Deed) : lines (ds ++ es) = lines ds ++ lines es :=
  List.filterMap_append

theorem naps_append (n : Nat) (ds es : List Deed) :
    naps n (ds ++ es) = naps n ds ++ naps (n + (lines ds).length) es := by
  induction ds generalizing n with
  | nil => rfl
  | cons d ds ih =>
      cases d with
      | line text colour =>
          rw [List.cons_append, naps, ih, naps]
          change _ = naps (n + 1) ds ++ naps (n + ((lines ds).length + 1)) es
          rw [Nat.add_assoc, Nat.add_comm 1]
      | sleep seconds =>
          rw [List.cons_append, naps, ih, naps, List.cons_append]
          rfl

end Deed

namespace Trace

variable {r r' r'' : Trace} {ds es : List Deed}

/-- The waits of a trace, each with the number of lines before it. -/
def waits (r : Trace) : List (Binary64 × Nat) := r.naps.toList.map fun n => (n.seconds, n.lines)

/-- Whether a trace goes on from another one with the lines and waits that are asked for. -/
structure Continues (r : Trace) (ds : List Deed) (r' : Trace) : Prop where
  lines : r'.lines.toList = r.lines.toList ++ Deed.lines ds
  waits : r'.waits = r.waits ++ Deed.naps r.lines.size ds

theorem continues_nil (hl : r'.lines = r.lines) (hn : r'.naps = r.naps) : r.Continues [] r' where
  lines := by rw [hl]; exact (List.append_nil _).symm
  waits := by rw [Trace.waits, hn]; exact (List.append_nil _).symm

theorem Continues.trans (h : r.Continues ds r') (k : r'.Continues es r'') :
    r.Continues (ds ++ es) r'' where
  lines := by rw [k.lines, h.lines, Deed.lines_append, List.append_assoc]
  waits := by
    have hsize : r'.lines.size = r.lines.size + (Deed.lines ds).length := by
      rw [← Array.length_toList, h.lines, List.length_append, Array.length_toList]
    rw [k.waits, h.waits, hsize, Deed.naps_append, List.append_assoc]

end Trace

/-! ### Colours -/

/-- The colour that a block has when it is not highlighted. -/
def Block.ownColour (b : Block) : Value := if b.isHighlighted then b.savedColour else b.colour

theorem Block.ownColour_eq_saved {b : Block} (h : b.savedColour ≠ .null) :
    b.ownColour = b.savedColour := by
  unfold ownColour isHighlighted
  rw [if_pos (by simpa using h)]

namespace Shade

variable {s : Shade}

theorem ne_null_of_lightenText {v : Value} {c : String} (h : s.lightenText v = .ok c) :
    v ≠ .null := fun hv => by
  rw [hv] at h
  cases h

end Shade

namespace Workspace

/-- Whether the colour of each block can be lightened. -/
def Bright (s : Shade) (w : Workspace) : Prop :=
  ∀ k b, w.find? k = some b → ∃ c, s.lightenText b.ownColour = .ok c

variable {s : Shade} {w : Workspace}

/-- A change that leaves each block its own colour. -/
theorem Bright.modify (h : w.Bright s) {k : Key} {f : Block → Block}
    (hf : ∀ b, w.find? k = some b → (f b).ownColour = b.ownColour) :
    Bright s { w with table := w.table.modify k f } := by
  intro j b hb
  change (w.table.modify k f).find? j = some b at hb
  rw [Table.find?_modify] at hb
  split at hb
  · rename_i hkj
    obtain ⟨c, hc, rfl⟩ := Option.map_eq_some_iff.mp hb
    rw [hf c (by rw [← hc]; exact w.table.find?_congr hkj)]
    exact h j c hc
  · exact h j b hb

theorem find?_modify {k : Key} {f : Block → Block} {b : Block}
    (h : (w.table.modify k f).find? k = some b) : ∃ c, w.find? k = some c ∧ b = f c := by
  rw [Table.find?_modify, if_pos BEq.rfl] at h
  obtain ⟨c, hc, rfl⟩ := Option.map_eq_some_iff.mp h
  exact ⟨c, hc, rfl⟩

/-- Showing a block in another colour, with its own colour saved. -/
theorem Bright.paint (h : w.Bright s) {k : Key} {b : Block} (hb : w.find? k = some b)
    (hne : b.ownColour ≠ .null) (colour : Value) :
    Bright s { w with
      table := (w.table.modify k fun b' => { b' with savedColour := b.ownColour }).modify k
        fun b' => { b' with colour } } := by
  have hsaved : Bright s { w with
      table := w.table.modify k fun b' => { b' with savedColour := b.ownColour } } := by
    refine h.modify fun b' hb' => ?_
    obtain rfl := Option.some.inj (hb.symm.trans hb')
    exact Block.ownColour_eq_saved hne
  refine hsaved.modify fun b' hb' => ?_
  obtain ⟨c, -, rfl⟩ := find?_modify hb'
  rw [Block.ownColour_eq_saved (b := { c with savedColour := b.ownColour, colour }) hne,
    Block.ownColour_eq_saved (b := { c with savedColour := b.ownColour }) hne]

/-- Showing a highlighted block in its own colour again. -/
theorem Bright.unpaint (h : w.Bright s) {k : Key} {b : Block} (hb : w.find? k = some b)
    (hhigh : b.isHighlighted = true) :
    Bright s { w with
      table := w.table.modify k fun b' =>
        { b' with colour := b.savedColour, savedColour := .null } } := by
  refine h.modify fun b' hb' => ?_
  obtain rfl := Option.some.inj (hb.symm.trans hb')
  exact (Block.ownColour_eq_saved (by simpa [Block.isHighlighted] using hhigh)).symm

theorem Stocked.bright (hs : w.Stocked) (p : Policy) (i : Int) : w.Bright ⟨p, .int i⟩ := by
  intro k b hb
  obtain ⟨x, rfl, -⟩ := hs.sound.key_text hb
  obtain ⟨d, hd⟩ := hs.stems x b hb
  have hown : b.ownColour = .text d.colour.hex := by
    rw [Block.ownColour, Block.isHighlighted, hd.saved]
    exact hd.colour
  rw [hown]
  exact Shade.exists_lightenText (fun _ => ⟨i, rfl⟩) d.colour

end Workspace

/-! ### Steps -/

/-- Whether a scene follows another one, with a trace that goes on with what is asked for, and
colours that can be lightened. -/
structure Scene.Follows (shade : Shade) (ds : List Deed) (s s' : Scene Trace) : Prop where
  bright : s'.workspace.Bright shade
  trace : s.audience.Continues ds s'.audience

theorem Scene.Follows.trans {shade : Shade} {ds es : List Deed} {s s' s'' : Scene Trace}
    (h : s.Follows shade ds s') (k : s'.Follows shade es s'') : s.Follows shade (ds ++ es) s'' :=
  ⟨k.bright, h.trace.trans k.trace⟩

namespace Highlighter

variable {h : Highlighter} {k : Key} {id : Value} {s : Scene Trace}

theorem ends_activate (hk : id.toKey = .ok k) (hb : s.workspace.Bright h.shade) :
    Ends (h.activate id) s (fun _ s' => s.Follows h.shade [] s') fun _ _ => False := by
  unfold activate
  refine Ends.bind (Act.ends_ofExcept_ok hk (Ends.bind (Ends.get ?_)))
  split
  · exact Ends.pure ⟨hb, Trace.continues_nil rfl rfl⟩
  · rename_i b hfind
    obtain ⟨c, hc⟩ := hb k b hfind
    have hpaint := hb.paint hfind (Shade.ne_null_of_lightenText hc) (.text c)
    refine Ends.bind (Act.ends_edit (Ends.modify (Ends.bind (Act.ends_ofExcept_ok hc ?_))))
    refine Ends.bind (Act.ends_edit (Ends.modify (Ends.bind (ends_announce fun s' hw hl hn => ?_))))
    exact Ends.pure ⟨hw ▸ hpaint, Trace.continues_nil hl hn⟩

theorem ends_restore (hk : id.toKey = .ok k) (hb : s.workspace.Bright h.shade) :
    Ends (h.restore id) s (fun _ s' => s.Follows h.shade [] s') fun _ _ => False := by
  unfold restore
  refine Ends.bind (Act.ends_ofExcept_ok hk (Ends.bind (Ends.get ?_)))
  split
  · exact Ends.pure ⟨hb, Trace.continues_nil rfl rfl⟩
  · rename_i b hfind
    obtain ⟨hfind, hhigh⟩ := Option.filter_eq_some_iff.mp hfind
    have hpaint := hb.unpaint hfind hhigh
    refine Ends.bind (Act.ends_edit (Ends.modify (Ends.bind (ends_announce fun s' hw hl hn => ?_))))
    exact Ends.pure ⟨hw ▸ hpaint, Trace.continues_nil hl hn⟩

end Highlighter

theorem Run.ends_emit_ok {α : Type} {e : Emit α} {s : Scene Trace} {a : α} {lines : Array Line}
    {good : α → Scene Trace → Prop} {bad : Error → Scene Trace → Prop}
    (he : e s.audience.lines = .ok a lines)
    (hg : good a { s with audience := { s.audience with lines } }) :
    Ends (emit e) s good bad := Run.ends_emit ((Ends.of_ok he).mpr hg)

/-- Whether waits are over at once, and colours are lightened to a shade. -/
structure Terms.Steady (t : Terms) (shade : Shade) : Prop where
  pacing : ∀ wait, t.pacing wait = .ok .over
  highlighter : ∀ h ∈ t.highlighter, h.shade = shade

section

variable {t : Terms} {shade : Shade} {op : Op} {ds : List Deed}

/-- Whether a step does what is asked for, wherever colours can be lightened. -/
def Op.Performs (t : Terms) (shade : Shade) (op : Op) (ds : List Deed) : Prop :=
  ∀ s : Scene Trace, s.workspace.Bright shade → Ends (op.perform t) s
    (fun pause s' => pause = .over ∧ s.Follows shade ds s') fun _ _ => False

theorem Op.Carries.performs (h : op.Carries t.definitions ds) (ht : t.Steady shade) :
    op.Performs t shade ds := by
  intro s hb
  cases h with
  | line hcall =>
      refine Ends.bind (Run.ends_emit_ok (hcall _) (Ends.pure ⟨rfl, hb, ?_⟩))
      exact ⟨Array.toList_push, (List.append_nil _).symm⟩
  | expr he =>
      exact Ends.bind (Run.ends_emit_ok (he _) (Ends.pure ⟨rfl, hb, Trace.continues_nil rfl rfl⟩))
  | @sleep e v x he hx =>
      refine Ends.bind (Run.ends_emit_ok (he _) (Ends.bind (Act.ends_ofExcept_ok hx ?_)))
      refine Ends.bind (Ends.get (Ends.bind (Ends.modify (Act.ends_ofExcept_ok (ht.pacing _) ?_))))
      refine ⟨rfl, hb, (List.append_nil _).symm, ?_⟩
      rw [Trace.waits, Array.toList_push, List.map_append]
      rfl

theorem Op.performs_highlight (ht : t.Steady shade) (x : String) :
    (Op.highlight (.text x)).Performs t shade [] := by
  refine fun s hb => ends_highlight ⟨rfl, hb, Trace.continues_nil rfl rfl⟩ fun h hh => ?_
  obtain rfl := ht.highlighter h hh
  exact (Highlighter.ends_activate (Value.toKey_text x) hb).mono (fun _ _ hs => ⟨rfl, hs⟩)
    fun _ _ he => he

theorem Op.performs_restore (ht : t.Steady shade) (x : String) :
    (Op.restore (.text x)).Performs t shade [] := by
  refine fun s hb => ends_restore ⟨rfl, hb, Trace.continues_nil rfl rfl⟩ fun h hh => ?_
  obtain rfl := ht.highlighter h hh
  exact (Highlighter.ends_restore (Value.toKey_text x) hb).mono (fun _ _ hs => ⟨rfl, hs⟩)
    fun _ _ he => he

/-! ### Runs -/

/-- Steps that do what is asked for are run to their end, one after the other. -/
theorem ends_advance {ops : List Op} {parts : List (List Deed)}
    (h : List.Forall₂ (Op.Performs t shade) ops parts) {clock : Clock}
    (hc : clock.Steady t.generation) {s : Scene Trace} (hb : s.workspace.Bright shade) :
    Ends (advance t clock ops) s
      (fun p s' => p = .finished ∧ s.Follows shade parts.flatten s') fun _ _ => False := by
  induction h generalizing clock s with
  | nil => exact Ends.pure ⟨rfl, hb, Trace.continues_nil rfl rfl⟩
  | @cons op ds ops parts hop _ ih =>
      refine ends_advance_steady hc ((hop s hb).mono (fun pause s' hs => ?_) fun _ _ he => he)
      obtain ⟨rfl, hfollows⟩ := hs
      rw [if_pos rfl]
      intro clock hc
      exact (ih hc hfollows.bright).mono (fun _ _ hp => ⟨hp.1, hfollows.trans hp.2⟩) fun _ _ he => he

end

/-! ### Whole programs -/

section

variable {t : Terms} {shade : Shade} {fs : List Fragment} {ds : List Deed}

theorem Carries.exists_performs (h : Carries t.definitions fs ds) (ht : t.Steady shade) :
    ∃ parts, List.Forall₂ (Op.Performs t shade) (fs.flatMap (·.ops)) parts ∧
      ds = parts.flatten := by
  induction h with
  | nil => exact ⟨[], .nil, rfl⟩
  | @cons f fs ds es hf _ ih =>
      obtain ⟨x, op, -, hops, hcarries⟩ := hf
      obtain ⟨parts, hperforms, rfl⟩ := ih
      refine ⟨ds :: parts, ?_, rfl⟩
      rw [List.flatMap_cons, hops]
      exact .cons (hcarries.performs ht) hperforms

/-- With highlighting around the steps of each statement, a program does the same. -/
theorem Carries.exists_performs_instrument (h : Carries t.definitions fs ds)
    (ht : t.Steady shade) :
    ∃ parts, List.Forall₂ (Op.Performs t shade) ((fs.map Fragment.instrument).flatMap (·.ops))
      parts ∧ ds = parts.flatten := by
  induction h with
  | nil => exact ⟨[], .nil, rfl⟩
  | @cons f fs ds es hf _ ih =>
      obtain ⟨x, op, hid, hops, hcarries⟩ := hf
      obtain ⟨parts, hperforms, rfl⟩ := ih
      rw [List.map_cons, List.flatMap_cons]
      unfold Fragment.instrument
      split
      · refine ⟨[] :: ds :: [] :: parts, ?_, by simp⟩
        rw [hid, hops]
        exact .cons (Op.performs_highlight ht x) (.cons (hcarries.performs ht)
          (.cons (Op.performs_restore ht x) hperforms))
      · refine ⟨ds :: parts, ?_, rfl⟩
        rw [hops]
        exact .cons (hcarries.performs ht) hperforms

end

theorem Program.fragments_instrument (p : Program) :
    p.instrument.fragments = p.fragments.map Fragment.instrument := by
  unfold fragments instrument
  exact List.map_flatten.symm

/-- **A program whose steps are those of what is asked for leaves the trace of that**, whether or
not it is prepared for highlighting. -/
theorem Carries.ends_run {p : Program} {ds : List Deed} (h : Carries p.definitions p.fragments ds)
    {highlighter : Option Highlighter} {shade : Shade}
    (hh : ∀ h ∈ highlighter, h.shade = shade) {generation : Value} {clock : Clock}
    (hc : ∀ newest ∈ clock, newest.same generation = true) {s : Scene Trace}
    (hb : s.workspace.Bright shade) (q : Program) (hq : q = p ∨ q = p.instrument) :
    Ends (q.run highlighter generation clock) s
      (fun c s' => c = ⟨generation, q.ops.length⟩ ∧ s.audience.Continues ds s'.audience)
      fun _ _ => False := by
  let t : Terms :=
    { highlighter, definitions := p.definitions, generation, watched := highlighter.isSome }
  have ht : t.Steady shade := ⟨fun _ => rfl, hh⟩
  have hdefs : q.definitions = p.definitions := by
    rcases hq with rfl | rfl
    · rfl
    · rfl
  have hperforms : ∃ parts, List.Forall₂ (Op.Performs t shade) q.ops parts ∧
      ds = parts.flatten := by
    rcases hq with rfl | rfl
    · exact Carries.exists_performs (t := t) h ht
    · unfold Program.ops
      rw [Program.fragments_instrument]
      exact Carries.exists_performs_instrument (t := t) h ht
  obtain ⟨parts, hparts, rfl⟩ := hperforms
  unfold Program.run
  rw [hdefs]
  refine Ends.bind ((ends_advance hparts hc hb).mono (fun _ s' hs => ?_) fun _ _ he => he)
  exact Ends.pure ⟨rfl, hs.2.trace⟩

/-! ### Histories -/

/-- **A program does what its workspace asks for.**  The chains are read in the order in which they
lie from top to bottom, from left to right and in order of creation, as far as positions can be
compared; there is one way to read them.  The program compiled with any words reserved, prepared for
highlighting or not, runs to its end and leaves just the lines and waits that were read. -/
theorem History.runs_as_read {σ : Type} {a : Audience σ} (ha : a.Tame) {w : Workspace}
    (h : History a .stock w)
    (hn : ∀ x, (w.block? x).isSome → w.Nests Compile.nestingLimit x) (words : List String) :
    ∃ tops deeds p, w.tops = .ok tops ∧ tops.Perm (w.blocks.filter (·.isTop)) ∧
      ((∀ t ∈ tops, ∀ x ∈ t.position, x.isNaN = false) → tops.Pairwise w.Precedes) ∧
      (∀ others, w.Reads tops others ↔ others = deeds) ∧
      (Compiler.stock.reserve words).program w = .ok p ∧
      ∀ q : Program, q = p ∨ q = p.instrument → ∀ highlighter : Option Highlighter,
        (∀ h ∈ highlighter, ∃ i, h.shade.delta = .int i) → ∀ (generation : Value) (clock : Clock),
        (∀ newest ∈ clock, newest.same generation = true) → ∀ host : Host,
        ∃ s, q.run highlighter generation clock { workspace := w, host, audience := {} } =
            .ok ⟨generation, q.ops.length⟩ s ∧
          s.audience.lines.toList = Deed.lines deeds ∧ s.audience.waits = Deed.naps 0 deeds := by
  have hs := h.stocked ha
  have hplaced : w.Placed := fun x b hb => by
    obtain ⟨d, hd⟩ := hs.stems x b hb
    exact hd.placed
  obtain ⟨tops, htops, hperm, hsorted⟩ := hs.sound.exists_tops hplaced
  have hmem : ∀ b ∈ tops, ∃ x, w.block? x = some b := fun b hb => by
    obtain ⟨e, he, rfl⟩ := List.mem_map.mp (List.mem_of_mem_filter (hperm.mem_iff.mp hb))
    obtain ⟨x, -, hx⟩ := hs.sound.key_text (Workspace.find?_of_mem_entries he)
    exact ⟨x, hx⟩
  obtain ⟨deeds, p, hreads, hp, hcarries⟩ :=
    hs.exists_program (t := Compiler.stock.reserve words) rfl hn htops hmem
  refine ⟨tops, deeds, p, htops, hperm, hsorted, fun others => ⟨fun ho => ho.unique hreads,
    fun ho => ho ▸ hreads⟩, hp, fun q hq highlighter hd generation clock hc host => ?_⟩
  obtain ⟨shade, hshade, hbright⟩ : ∃ shade, (∀ h ∈ highlighter, h.shade = shade) ∧
      w.Bright shade := by
    cases highlighter with
    | none =>
        refine ⟨⟨.rgb, .int 0⟩, fun h hh => ?_, hs.bright _ _⟩
        cases hh
    | some h =>
        obtain ⟨i, hi⟩ := hd h rfl
        refine ⟨⟨h.shade.policy, .int i⟩, fun h' hh => ?_, hs.bright _ _⟩
        cases hh
        rw [← hi]
  have hrun := hcarries.ends_run (s := { workspace := w, host, audience := {} }) hshade hc hbright
    q hq
  obtain ⟨c, s, hs, rfl, htrace⟩ := hrun.exists_ok
  exact ⟨s, hs, htrace.lines, htrace.waits⟩

/-- A block by itself that puts out a text asks for an empty one in white. -/
theorem Workspace.Lone.reads_newLine {w : Workspace} {x : String} (h : w.Lone x (Edit.newLine x))
    (hv : w.vocabulary = .stock) : w.Reads [Edit.newLine x] [.line "" "#ffffff"] := by
  have hd : w.declarationOf (Edit.newLine x) = .ok Vocabulary.addText := by
    rw [declarationOf, hv]
    rfl
  have htext : w.Fills (Edit.newLine x) "TEXT" (.text "") :=
    .empty rfl ⟨_, _, "String", hd, rfl, rfl, rfl⟩
  have hcolour : w.Fills (Edit.newLine x) "COLOR" (.text "#ffffff") :=
    .empty rfl ⟨_, _, "Colour", hd, rfl, rfl, rfl⟩
  exact ⟨[[Edit.newLine x]], [[.line "" "#ffffff"]], .cons ⟨x, rfl, .last h.block?_self rfl⟩ .nil,
    .cons (.line rfl rfl htext hcolour) .nil, rfl⟩

/-- A single block that puts out a text runs on a clock that stands still, and leaves its line. -/
theorem History.runs_as_read_single_line :
    ∃ w : Workspace, History .journal .stock w ∧
      (∀ x, (w.block? x).isSome → w.Nests Compile.nestingLimit x) ∧
      ∃ p s, (Compiler.stock.reserve ["text"]).program w = .ok p ∧
        p.run none (.int 1) [.int 1] { workspace := w, audience := {} } =
          .ok ⟨.int 1, p.ops.length⟩ s ∧ s.audience.lines.toList = [⟨.text "", .text "#ffffff"⟩] := by
  obtain ⟨w, h, hlone⟩ := exists_line (x := "out") (by decide) (by decide)
  have hn : ∀ x, (w.block? x).isSome → w.Nests Compile.nestingLimit x := fun x _ =>
    (hlone.nests : w.Nests (449 + 1) x)
  have hc : ∀ newest ∈ ([.int 1] : Clock), newest.same (.int 1) = true := by decide
  obtain ⟨tops, deeds, p, htops, -, -, hreads, hp, hrun⟩ :=
    History.runs_as_read Audience.tame_journal h hn ["text"]
  obtain ⟨s', hs', hlines, -⟩ := hrun p (.inl rfl) none (fun _ hh => by cases hh) (.int 1) [.int 1] hc {}
  obtain rfl := Except.ok.inj ((hlone.tops rfl).symm.trans htops)
  obtain rfl := (hreads _).mp (hlone.reads_newLine (h.stocked Audience.tame_journal).vocabulary)
  exact ⟨_, h, hn, p, s', hp, hs', hlines⟩

end Blockwork
