import Blockwork.Compile.Stock
import Blockwork.Highlight
import Blockwork.Proofs.Faults
import Blockwork.Proofs.Scenes
import Blockwork.Proofs.Yielding

/-!
# Plain programs

The steps that rules make are plain: they call definitions, evaluate expressions and wait, but do
not highlight blocks; that is left to the preparation of the program.  When all rules are plain and
ask for honest definitions only (`Compiler.Plain`), so is every program (`Compiler.Plain.program`).
The stock rules are (`Compiler.plain_stock`).
-/

namespace Blockwork

/-- Whether a step is of a program's own, and does not highlight or restore a block. -/
def Op.isPlain : Op → Bool
  | .highlight _ | .restore _ => false
  | _ => true

/-- Whether the steps of a program are plain and its definitions honest. -/
structure Program.Plain (p : Program) : Prop where
  steps : ∀ f ∈ p.fragments, ∀ op ∈ f.ops, op.isPlain = true
  honest : ∀ d ∈ p.definitions, d.Honest

namespace Compile

/-- Whether what is made of a block has plain steps only. -/
def Outcome.Plain : Outcome → Prop
  | .value .. => True
  | .ops steps => ∀ op ∈ steps, op.isPlain = true

/-- Whether only honest definitions have been asked for. -/
def Honest (d : Draft) : Prop := ∀ s ∈ d.definitions, s.Honest

/-- Whether a part of a compilation asks for honest definitions only, with an answer of a kind. -/
def Makes {α : Type} (good : α → Prop) (x : Drafting α) : Prop :=
  ∀ d, Honest d → Ends x d (fun a d' => good a ∧ Honest d') fun _ d' => Honest d'

/-- Whether a rule makes plain steps and asks for honest definitions only, when what is plugged in
asks for no others. -/
def Rule.Plain (rule : Rule) : Prop :=
  ∀ site : Site, (∀ name order, Makes (fun _ => True) (site.plug name order)) →
    Makes Outcome.Plain (rule site)

theorem honest_define (wanted : Key) (lines : List String) {run : List Value → Emit Value}
    (h : ∀ name text, (Subroutine.mk name text run).Honest) :
    Yields Honest (fun _ => True) (define wanted (.ok lines) run) := by
  refine Yields.define (fun _ _ _ _ => trivial) fun d name _ hd _ _ _ => ⟨trivial, fun s hs => ?_⟩
  rcases List.mem_append.mp hs with hs | hs
  · exact hd s hs
  · obtain rfl := List.mem_singleton.mp hs
    exact h name _

end Compile

/-! ### Programs -/

/-- Whether all rules are plain. -/
def Compiler.Plain (t : Compiler) : Prop := ∀ e ∈ t.rules, e.2.Plain

/-- **Plain rules make plain programs**, in which a value block by itself is one expression. -/
theorem Compiler.Plain.program_loose {t : Compiler} (ht : t.Plain) {w : Workspace} {p : Program}
    (hp : t.program w = .ok p) :
    p.Plain ∧ ∀ f ∈ p.fragments, f.isStatement = true ∨ ∃ e, f.ops = [.expr e] := by
  have hrules : ∀ e ∈ t.rules, e.2.Yields Compile.Honest (fun _ => True) (fun _ _ => True)
      Compile.Outcome.Plain := fun e he site _ hplug => ht e he site hplug
  obtain ⟨houtcomes, d, hhonest, hdefinitions, -⟩ := Compile.exists_outcomes hrules
    (fun _ _ _ => trivial) (fun _ _ _ _ => trivial) (fun _ _ _ _ _ _ => trivial)
    (fun s hs => nomatch hs) hp
  refine ⟨⟨fun f hf op hop => ?_, hdefinitions ▸ hhonest⟩, fun f hf => ?_⟩
  · obtain ⟨-, b, o, -, ho, rfl⟩ := houtcomes f hf
    cases o with
    | value e order => exact List.mem_singleton.mp hop ▸ rfl
    | ops steps => exact ho op hop
  · obtain ⟨-, b, o, -, -, rfl⟩ := houtcomes f hf
    cases o with
    | value e order => exact .inr ⟨e, rfl⟩
    | ops steps => exact .inl rfl

theorem Compiler.Plain.program {t : Compiler} (ht : t.Plain) {w : Workspace} {p : Program}
    (hp : t.program w = .ok p) : p.Plain := (ht.program_loose hp).1

/-! ### The stock rules -/

namespace Compile

theorem honest_addTextRun (values : List Value) (lines : Array Line) :
    Ends (addTextRun values) lines (fun _ _ => True) fun e _ => e.isFault = true := by
  unfold addTextRun
  split
  · exact Ends.bind (Ends.modify (Ends.pure trivial))
  · exact Ends.throw rfl

theorem honest_colourRgbRun (values : List Value) (lines : Array Line) :
    Ends (colourRgbRun values) lines (fun _ _ => True) fun e _ => e.isFault = true := by
  have channel (v : Value) (lines : Array Line) {good : Int → Array Line → Prop}
      (h : ∀ i l, good i l) : Ends (colourRgbRun.emitted (channel v)) lines good
        fun e _ => e.isFault = true := by
    have hfaults : Faults (channel v) :=
      (v.failsBy_toFloat .faults).bind fun x =>
        Number.failsBy_wholeBy .faults _ (.float x)
    cases hv : Compile.channel v with
    | ok i => exact Ends.pure (h i lines)
    | error e => exact Ends.throw (hfaults e hv)
  unfold colourRgbRun
  split
  · refine Ends.bind (channel _ _ fun red l => Ends.bind (channel _ _ fun green l => ?_))
    exact Ends.bind (channel _ _ fun blue l => Ends.pure trivial)
  · exact Ends.throw rfl

end Compile

/-- The stock rules are plain. -/
theorem Compiler.plain_stock : Compiler.stock.Plain := by
  intro e he site hplug
  have hadd := Compile.honest_define "add_text" Compile.addTextLines fun _ _ =>
    Compile.honest_addTextRun
  have hcolour := Compile.honest_define "colour_rgb" Compile.colourRgbLines fun _ _ =>
    Compile.honest_colourRgbRun
  have hmade : Compile.Yields Compile.Honest
      (Compile.Made site.block (fun _ _ => True) fun _ _ => True) (e.2 site) :=
    Compile.yields_made hadd hcolour (Compile.Yields.require fun _ hd => hd) he hplug
  refine hmade.mono fun o ho => ?_
  cases ho with
  | addText | wait => exact fun op hop => List.mem_singleton.mp hop ▸ rfl
  | text | textJoin | colourPicker | colourRgb | mathNumber => trivial

end Blockwork
