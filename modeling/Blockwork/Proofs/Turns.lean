import Blockwork.Proofs.Running
import Blockwork.Proofs.Typing

/-!
# Runs in turns

A run that pauses at a wait goes on later, when others may have changed the workspace (`Turns`).
What a program of the stock vocabulary puts out and waits for is typed all the time, and it is ended
before its time only by a newer generation or by a wait that fails (`History.runs_typed`): that is
kept by every step (`Op.Safe`), by every turn (`ends_advance_safe`), and between turns by whatever is
asked of the workspace (`Workspace.Dyed.reach`).
-/

namespace Blockwork

/-! ### Colours of blocks -/

/-- Whether a block that is not highlighted is shown in a colour that the stock vocabulary
declares. -/
def Block.Dyed (b : Block) : Prop :=
  ∃ d ∈ Vocabulary.stock.declarations, b.ownColour = .text d.colour.hex

/-- What is done to a block does not change the colour that it has when it is not highlighted. -/
theorem Block.persistent_dyed : Persistent .stock Block.Dyed where
  core {b c} hc hb := by
    have hcolour := congrArg Block.colour hc
    have hsaved := congrArg Block.savedColour hc
    dsimp only [Block.core] at hcolour hsaved
    unfold Block.Dyed ownColour isHighlighted at *
    rw [hcolour, hsaved]
    exact hb
  created hd _ _ := ⟨_, Vocabulary.mem_of_lookup hd, rfl⟩
  written _ _ _ _ hb := hb
  moved _ hb := hb
  raised _ hc := hc
  switched _ hb := hb

namespace Workspace

/-- Whether a workspace is a sound one of the stock vocabulary, where blocks may be highlighted. -/
structure Dyed (w : Workspace) : Prop where
  sound : w.Sound
  minted : w.Minted
  vocabulary : w.vocabulary = .stock
  dyed : w.Holds Block.Dyed

variable {w w' : Workspace} {x : String} {b : Block}

/-- Whatever is asked of a workspace, its blocks keep their colours. -/
theorem Dyed.reach (h : w.Dyed) (hr : Reach w w') : w'.Dyed := by
  have hlater := h.sound.reach h.minted hr
  refine ⟨hlater.sound, hlater.minted h.minted, hlater.vocabulary.trans h.vocabulary, ?_⟩
  exact h.sound.holds_reach h.minted (h.vocabulary.symm ▸ Block.persistent_dyed) h.dyed hr

/-- A change that shows a block in another colour and keeps its own one. -/
theorem Dyed.edit (h : w.Dyed) {f : Block → Block} (hf : Harmless f)
    (hown : ∀ b, w.block? x = some b → (f b).ownColour = b.ownColour) : (w.edit x f).Dyed := by
  have hlater := Harmless.later h.sound hf x
  refine ⟨hlater.sound, hlater.minted h.minted, hlater.vocabulary.trans h.vocabulary, ?_⟩
  refine h.dyed.edit fun b hb hd => ?_
  obtain ⟨d, hd, hcolour⟩ := hd
  exact ⟨d, hd, (hown b hb).trans hcolour⟩

end Workspace

theorem harmless_colours (colour saved : Block → Value) :
    Workspace.Harmless fun b => { b with colour := colour b, savedColour := saved b } :=
  ⟨fun _ => rfl, fun _ => rfl, fun _ => rfl, fun _ => rfl, fun _ => rfl, fun _ => rfl⟩

theorem History.dyed {σ : Type} {a : Audience σ} (ha : a.Tame) {w : Workspace}
    (h : History a .stock w) : w.Dyed where
  sound := h.sound ha Vocabulary.worded_stock
  minted := (h.grounded ha Vocabulary.worded_stock).2
  vocabulary := h.vocabulary ha Vocabulary.worded_stock
  dyed := h.holds ha Vocabulary.worded_stock Block.persistent_dyed

/-! ### What is seen of a run -/

/-- Whether lines are texts in colours, and waits are for whole seconds. -/
structure Trace.Typed (r : Trace) : Prop where
  lines : ∀ l ∈ r.lines, ∃ text colour, l = ⟨.text text, .text colour⟩ ∧ Rgb.IsHex colour
  naps : ∀ n ∈ r.naps, n.seconds.IsWhole

/-- Whether what has been seen of a run is typed, and the run can go on in the workspace. -/
structure Scene.Proper (s : Scene Trace) : Prop where
  workspace : s.workspace.Dyed
  trace : s.audience.Typed

/-- Whether a run may end with an error: it is superseded, or a wait that it has asked for fails. -/
def Terms.Excuses (t : Terms) (e : Error) (r : Trace) : Prop :=
  (∃ newest, e = .superseded t.generation newest) ∨
    ∃ i n, r.naps[i]? = some n ∧ t.pacing ⟨n.seconds, i⟩ = .error e

namespace Highlighter

variable {h : Highlighter} {x : String} {s : Scene Trace}

theorem ends_activate_proper {i : Int} (hi : h.shade.delta = .int i) (hs : s.Proper) :
    Ends (h.activate (.text x)) s (fun _ s' => s'.Proper) fun _ _ => False := by
  have hx : (Value.text x).toKey = .ok (.text x) := rfl
  unfold activate
  refine Ends.bind (Act.ends_ofExcept_ok hx (Ends.bind (Ends.get ?_)))
  split
  · exact Ends.pure hs
  · rename_i b hb
    obtain ⟨d, hd, hown⟩ := hs.workspace.dyed x b hb
    obtain ⟨c, hc⟩ := Shade.exists_lightenText (s := h.shade) (fun _ => ⟨i, by rw [hi]; rfl⟩)
      d.colour
    rw [← hown] at hc
    have hne := Shade.ne_null_of_lightenText hc
    -- a colour is saved before another one is shown, and while it is saved it is the block's own
    have hsaved := hs.workspace.edit (x := x)
      (harmless_colours Block.colour fun _ => b.ownColour) fun b' hb' => by
        obtain rfl := Option.some.inj (hb.symm.trans hb')
        exact Block.ownColour_eq_saved hne
    have hpainted := hsaved.edit (x := x)
      (harmless_colours (fun _ => .text c) Block.savedColour) fun b' hb' => by
        obtain ⟨c', -, rfl⟩ := Workspace.find?_modify hb'
        have hown (colour : Value) : ({ c' with savedColour := b.ownColour, colour } : Block).ownColour =
            b.ownColour := Block.ownColour_eq_saved hne
        exact (hown (.text c)).trans (hown c'.colour).symm
    refine Ends.bind (Act.ends_edit (Ends.modify (Ends.bind (Act.ends_ofExcept_ok hc ?_))))
    refine Ends.bind (Act.ends_edit (Ends.modify (Ends.bind (ends_announce fun s' hw hl hn => ?_))))
    refine Ends.pure ⟨hw ▸ hpainted, ?_, ?_⟩
    · rw [hl]
      exact hs.trace.lines
    · rw [hn]
      exact hs.trace.naps

theorem ends_restore_proper (hs : s.Proper) :
    Ends (h.restore (.text x)) s (fun _ s' => s'.Proper) fun _ _ => False := by
  have hx : (Value.text x).toKey = .ok (.text x) := rfl
  unfold restore
  refine Ends.bind (Act.ends_ofExcept_ok hx (Ends.bind (Ends.get ?_)))
  split
  · exact Ends.pure hs
  · rename_i b hb
    obtain ⟨hb, hhigh⟩ := Option.filter_eq_some_iff.mp hb
    have hplain := hs.workspace.edit (x := x)
      (harmless_colours (fun _ => b.savedColour) fun _ => .null) fun b' hb' => by
        obtain rfl := Option.some.inj (hb.symm.trans hb')
        exact (Block.ownColour_eq_saved (by simpa [Block.isHighlighted] using hhigh)).symm
    refine Ends.bind (Act.ends_edit (Ends.modify (Ends.bind (ends_announce fun s' hw hl hn => ?_))))
    refine Ends.pure ⟨hw ▸ hplain, ?_, ?_⟩
    · rw [hl]
      exact hs.trace.lines
    · rw [hn]
      exact hs.trace.naps

end Highlighter

/-! ### Steps -/

section

variable {t : Terms} {op : Op} {ops : List Op} {ds : List Deed} {s s' : Scene Trace}

/-- Whether a step leaves typed what is seen of a run, and fails only as a run may. -/
def Op.Safe (t : Terms) (op : Op) : Prop :=
  ∀ s : Scene Trace, s.Proper → Ends (op.perform t) s (fun _ s' => s'.Proper)
    fun e s' => s'.Proper ∧ t.Excuses e s'.audience

/-- A step for what is typed is safe, however waits go. -/
theorem Op.Carries.safe (h : op.Carries t.definitions ds) (hd : ∀ d ∈ ds, d.Typed) : op.Safe t := by
  intro s hs
  cases h with
  | line hcall =>
      refine Ends.bind (Run.ends_emit_ok (hcall _) (Ends.pure ⟨hs.workspace, ?_, hs.trace.naps⟩))
      intro l hl
      rcases Array.mem_push.mp hl with hl | rfl
      · exact hs.trace.lines l hl
      · exact ⟨_, _, rfl, hd _ List.mem_cons_self⟩
  | expr he => exact Ends.bind (Run.ends_emit_ok (he _) (Ends.pure hs))
  | @sleep e v x he hx =>
      refine Ends.bind (Run.ends_emit_ok (he _) (Ends.bind (Act.ends_ofExcept_ok hx ?_)))
      refine Ends.bind (Ends.get (Ends.bind (Ends.modify ?_)))
      -- the wait is noted before it is begun, and so also when it fails
      have hnoted (lines : Nat) (active : List Value) :
          Trace.Typed { s.audience with naps := s.audience.naps.push ⟨x, lines, active⟩ } := by
        refine ⟨hs.trace.lines, fun n hn => ?_⟩
        rcases Array.mem_push.mp hn with hn | rfl
        · exact hs.trace.naps n hn
        · exact hd _ List.mem_cons_self
      refine Act.ends_ofExcept (fun _ _ => ⟨hs.workspace, hnoted _ _⟩) fun e he => ?_
      exact ⟨⟨hs.workspace, hnoted _ _⟩, .inr ⟨_, _, Array.getElem?_push_size, he⟩⟩

/-- Whether colours are lightened by a whole number. -/
def Terms.Graded (t : Terms) : Prop := ∀ h ∈ t.highlighter, ∃ i, h.shade.delta = .int i

theorem Op.safe_highlight (ht : t.Graded) (x : String) : (Op.highlight (.text x)).Safe t := by
  refine fun s hs => ends_highlight hs fun h hh => ?_
  obtain ⟨i, hi⟩ := ht h hh
  exact (Highlighter.ends_activate_proper hi hs).mono (fun _ _ hs' => hs') fun _ _ he => he.elim

theorem Op.safe_restore (x : String) : (Op.restore (.text x)).Safe t := fun _ hs =>
  ends_restore hs fun _ _ =>
    (Highlighter.ends_restore_proper hs).mono (fun _ _ hs' => hs') fun _ _ he => he.elim

/-! ### Turns -/

/-- A turn of safe steps leaves typed what is seen, and steps of the same program. -/
theorem ends_advance_safe (h : ∀ op ∈ ops, op.Safe t) (hs : s.Proper) (clock : Clock) :
    Ends (advance t clock ops) s
      (fun p s' => s'.Proper ∧ ∀ pause rest, p = .paused pause rest → rest <:+ ops)
      fun e s' => s'.Proper ∧ t.Excuses e s'.audience := by
  -- step by step; a turn that the clock ends leaves the steps behind the one it ended at
  induction ops generalizing clock s with
  | nil =>
      refine Ends.pure ⟨hs, fun pause rest hp => ?_⟩
      cases hp
  | cons op ops ih =>
      have hstale (newest : Value) : s.Proper ∧ t.Excuses (.superseded t.generation newest) s.audience :=
        ⟨hs, .inl ⟨newest, rfl⟩⟩
      have hstep := h op List.mem_cons_self s hs
      refine ends_advance_cons (fun newest _ _ => hstale newest) (hstep.mono (fun pause s' hs' => ?_)
        fun _ _ he => he)
      split
      · have hrest := ih (fun op hop => h op (List.mem_cons_of_mem _ hop)) hs' clock.look.2
        refine hrest.mono (fun p u hu => ⟨hu.1, fun pause rest hp => ?_⟩) fun _ _ he => he
        exact (hu.2 pause rest hp).trans (List.suffix_cons op ops)
      · refine ⟨hs', fun pause rest hp => ?_⟩
        cases hp
        exact List.suffix_cons op ops

/-- How a run of steps goes: in turns, each on a clock of its own.  After a turn that pauses others
change the workspace, until the next turn begins with the steps that are left.  The last turn comes
so far, or fails. -/
inductive Turns (t : Terms) : List Op → Scene Trace → Except Error Progress → Scene Trace → Prop where
  | last {clock : Clock} {ops : List Op} {p : Progress} {s s' : Scene Trace} :
      advance t clock ops s = .ok p s' → Turns t ops s (.ok p) s'
  | failed {clock : Clock} {ops : List Op} {e : Error} {s s' : Scene Trace} :
      advance t clock ops s = .error e s' → Turns t ops s (.error e) s'
  | next {clock : Clock} {ops rest : List Op} {pause : Pause} {s s' s'' : Scene Trace} {w : Workspace}
      {host : Host} {r : Except Error Progress} :
      advance t clock ops s = .ok (.paused pause rest) s' → Reach s'.workspace w →
      Turns t rest { s' with workspace := w, host } r s'' → Turns t ops s r s''

/-- **Safe steps leave typed what is seen of a run, turn by turn**, and the run fails only as it
may. -/
theorem Turns.proper {r : Except Error Progress} (hr : Turns t ops s r s')
    (h : ∀ op ∈ ops, op.Safe t) (hs : s.Proper) :
    s'.Proper ∧ ∀ e, r = .error e → t.Excuses e s'.audience := by
  induction hr with
  | @last clock _ _ _ _ hadvance =>
      have hends := ends_advance_safe h hs clock
      rw [Ends.of_ok hadvance] at hends
      exact ⟨hends.1, fun e he => nomatch he⟩
  | @failed clock _ _ _ _ hadvance =>
      have hends := ends_advance_safe h hs clock
      rw [Ends.of_error hadvance] at hends
      exact ⟨hends.1, fun e he => Except.error.inj he ▸ hends.2⟩
  | @next clock _ _ _ _ _ _ _ _ _ hadvance hreach _ ih =>
      have hends := ends_advance_safe h hs clock
      rw [Ends.of_ok hadvance] at hends
      -- others may have changed the workspace since, but not what every history keeps
      obtain ⟨hs', hrest⟩ := hends
      have hsuffix := hrest _ _ rfl
      refine ih (fun op hop => h op (hsuffix.subset hop)) ⟨hs'.workspace.reach hreach, hs'.trace⟩

/-! ### Programs -/

theorem Carries.exists_part {definitions : List Subroutine} {fs : List Fragment}
    (h : Carries definitions fs ds) {f : Fragment} (hf : f ∈ fs) :
    ∃ part, f.Carries definitions part ∧ part ⊆ ds := by
  induction h with
  | nil => cases hf
  | @cons g gs part rest hg _ ih =>
      rcases List.mem_cons.mp hf with rfl | hf
      · exact ⟨part, hg, List.subset_append_left _ _⟩
      · obtain ⟨part', hcarries, hsub⟩ := ih hf
        exact ⟨part', hcarries, List.Subset.trans hsub (List.subset_append_right _ _)⟩

theorem Program.mem_ops {p : Program} : op ∈ p.ops ↔ ∃ f ∈ p.fragments, op ∈ f.ops :=
  List.mem_flatMap

/-- The steps of a program that is prepared for highlighting. -/
theorem Program.mem_ops_instrument {p : Program} (h : op ∈ p.instrument.ops) :
    op ∈ p.ops ∨ ∃ f ∈ p.fragments, op = .highlight f.block ∨ op = .restore f.block := by
  rw [mem_ops, fragments_instrument] at h
  obtain ⟨g, hg, hop⟩ := h
  obtain ⟨f, hf, rfl⟩ := List.mem_map.mp hg
  unfold Fragment.instrument at hop
  split at hop
  · simp only [List.mem_append, List.mem_cons, List.not_mem_nil, or_false] at hop
    rcases hop with (rfl | hop) | rfl
    · exact .inr ⟨f, hf, .inl rfl⟩
    · exact .inl (mem_ops.mpr ⟨f, hf, hop⟩)
    · exact .inr ⟨f, hf, .inr rfl⟩
  · exact .inl (mem_ops.mpr ⟨f, hf, hop⟩)

/-- The steps of a program for what is typed are safe, prepared for highlighting or not. -/
theorem Carries.safe {p : Program} (h : Carries p.definitions p.fragments ds)
    (hd : ∀ d ∈ ds, d.Typed) (ht : t.Graded) (hdefs : t.definitions = p.definitions) {q : Program}
    (hq : q = p ∨ q = p.instrument) : ∀ op ∈ q.ops, op.Safe t := by
  have plain {op : Op} (hop : op ∈ p.ops) : op.Safe t := by
    obtain ⟨f, hf, hop⟩ := Program.mem_ops.mp hop
    obtain ⟨part, ⟨x, op', -, hops, hcarries⟩, hsub⟩ := h.exists_part hf
    rw [hops] at hop
    obtain rfl := List.mem_singleton.mp hop
    rw [← hdefs] at hcarries
    exact hcarries.safe fun d hd' => hd d (hsub hd')
  intro op hop
  rcases hq with rfl | rfl
  · exact plain hop
  · rcases Program.mem_ops_instrument hop with hop | ⟨f, hf, hop⟩
    · exact plain hop
    · obtain ⟨part, ⟨x, op', hid, -⟩, -⟩ := h.exists_part hf
      rw [hid] at hop
      rcases hop with rfl | rfl
      · exact Op.safe_highlight ht x
      · exact Op.safe_restore x

end

/-! ### Histories -/

/-- **Programs of the stock vocabulary are typed.**  There is a program of every workspace, it can be
shown, and all calls in it are of definitions that are there.  Prepared for highlighting or not, it
is run in whatever turns: it puts out texts in colours and waits for whole seconds only, and fails by
nothing but a newer generation or a wait that fails. -/
theorem History.runs_typed {σ : Type} {a : Audience σ} (ha : a.Tame) {w : Workspace}
    (h : History a .stock w)
    (hn : ∀ x, (w.block? x).isSome → w.Nests Compile.nestingLimit x) (words : List String) :
    ∃ p text, (Compiler.stock.reserve words).program w = .ok p ∧ p.render = .ok text ∧
      (∀ op ∈ p.ops, op.Bound p.definitions) ∧
      ∀ q, q = p ∨ q = p.instrument → (∃ text, q.render = .ok text) ∧
        ∀ t : Terms, t.definitions = p.definitions → t.Graded → ∀ (host : Host)
          (r : Except Error Progress) (s : Scene Trace),
          Turns t q.ops { workspace := w, host, audience := {} } r s →
          s.audience.Typed ∧ ∀ e, r = .error e →
            (∃ newest, e = .superseded t.generation newest) ∨
              ∃ i n, s.audience.naps[i]? = some n ∧ t.pacing ⟨n.seconds, i⟩ = .error e := by
  have hs := h.stocked ha
  obtain ⟨tops, htops, hmem⟩ := hs.exists_tops
  obtain ⟨deeds, p, hreads, hp, hcarries⟩ :=
    hs.exists_program (t := Compiler.stock.reserve words) rfl hn htops hmem
  have htexts : Compile.Texts p.imports := Compiler.texts_imports rfl hp
  obtain ⟨text, htext⟩ := Program.exists_render htexts
  refine ⟨p, text, hp, htext, fun op hop => ?_, fun q hq => ⟨?_, fun t hdefs ht host r s hr => ?_⟩⟩
  · obtain ⟨f, hf, hop⟩ := Program.mem_ops.mp hop
    obtain ⟨part, ⟨x, op', -, hops, hop'⟩, -⟩ := hcarries.exists_part hf
    rw [hops] at hop
    obtain rfl := List.mem_singleton.mp hop
    exact hop'.bound
  · rcases hq with rfl | rfl
    · exact ⟨text, htext⟩
    · exact Program.exists_render htexts
  · have hsafe := hcarries.safe (hs.typed_reads hreads) ht hdefs hq
    have hstart : Trace.Typed {} := by
      refine ⟨fun l hl => ?_, fun n hn => ?_⟩
      · cases Array.not_mem_empty l hl
      · cases Array.not_mem_empty n hn
    obtain ⟨hproper, hfails⟩ := hr.proper hsafe ⟨h.dyed ha, hstart⟩
    exact ⟨hproper.trace, hfails⟩

/-- A single block that puts out a text is run to its end in one turn, and puts out a line. -/
theorem History.runs_typed_line : ∃ w p text, History .journal .stock w ∧
    (∀ x, (w.block? x).isSome → w.Nests Compile.nestingLimit x) ∧
    (Compiler.stock.reserve ["text"]).program w = .ok p ∧ p.render = .ok text ∧
    ∃ s, Turns { definitions := p.definitions } p.ops { workspace := w, audience := {} }
        (.ok .finished) s ∧
      s.audience.lines.toList = [⟨.text "", .text "#ffffff"⟩] ∧ s.audience.Typed := by
  obtain ⟨w, hw, hlone⟩ := exists_line (x := "out") (by decide) (by decide)
  have hn : ∀ x, (w.block? x).isSome → w.Nests Compile.nestingLimit x := fun x _ =>
    (hlone.nests : w.Nests (449 + 1) x)
  obtain ⟨p, text, hp, htext, -, hruns⟩ := runs_typed Audience.tame_journal hw hn ["text"]
  obtain ⟨-, hturns⟩ := hruns p (.inl rfl)
  -- what the workspace asks for is that line
  have hs := hw.stocked Audience.tame_journal
  obtain ⟨deeds, p', hreads, hp', hcarries⟩ := hs.exists_program (t := Compiler.stock.reserve ["text"])
    rfl hn (hlone.tops rfl) (List.forall_mem_singleton.mpr ⟨_, hlone.block?_self⟩)
  obtain rfl := Except.ok.inj (hp.symm.trans hp')
  obtain rfl := (hlone.reads_newLine hs.vocabulary).unique hreads
  let t : Terms := { definitions := p.definitions }
  have hsteady : t.Steady ⟨.rgb, .int 0⟩ := ⟨fun _ => rfl, fun _ hh => nomatch hh⟩
  obtain ⟨parts, hparts, hdeeds⟩ := hcarries.exists_performs hsteady
  have hends := ends_advance (s := { workspace := w, audience := {} }) hparts (Clock.steady_nil _)
    (hs.bright _ _)
  obtain ⟨_, s, hadvance, rfl, hfollows⟩ := hends.exists_ok
  have hturn : Turns t p.ops { workspace := w, audience := {} } (.ok .finished) s := .last hadvance
  refine ⟨w, p, text, hw, hn, hp, htext, s, hturn, ?_, (hturns t rfl (fun _ hh => nomatch hh) {} _ s
    hturn).1⟩
  rw [hfollows.trace.lines, ← hdeeds]
  rfl

end Blockwork
