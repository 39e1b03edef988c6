import Blockwork.Proofs.Compiling
import Blockwork.Proofs.Tops

/-!
# Programs of the stock vocabulary

The steps of a program are those of what the blocks ask for (`Carries`), fragment by fragment in the
order in which the workspace is read (`Workspace.Stocked.exists_program`).
-/

namespace Blockwork

open Compile (Computes)
open Forest

/-! ### What steps are for -/

/-- Whether a step is the one for what a block asks for. -/
inductive Op.Carries (definitions : List Subroutine) : Op → List Deed → Prop where
  | line {name : Value} {es : List Expr} {text colour : String} :
      (∀ lines, (Expr.call name es).eval definitions lines =
        .ok .null (lines.push ⟨.text text, .text colour⟩)) →
      Carries definitions (.call name es) [.line text colour]
  | sleep {e : Expr} {v : Value} {x : Binary64} : e.Evaluates definitions v → v.toFloat = .ok x →
      Carries definitions (.sleep e) [.sleep x]
  | expr {e : Expr} {v : Value} : e.Evaluates definitions v → Carries definitions (.expr e) []

/-- Whether the step of a fragment is the one for what its block asks for. -/
def Fragment.Carries (definitions : List Subroutine) (f : Fragment) (ds : List Deed) : Prop :=
  ∃ x op, f.block = .text x ∧ f.ops = [op] ∧ op.Carries definitions ds

/-- Whether the steps of fragments are those for something, one after the other. -/
inductive Carries (definitions : List Subroutine) : List Fragment → List Deed → Prop where
  | nil : Carries definitions [] []
  | cons {f : Fragment} {fs : List Fragment} {ds es : List Deed} : f.Carries definitions ds →
      Carries definitions fs es → Carries definitions (f :: fs) (ds ++ es)

theorem Carries.append {definitions : List Subroutine} {fs gs : List Fragment} {ds es : List Deed}
    (h : Carries definitions fs ds) (k : Carries definitions gs es) :
    Carries definitions (fs ++ gs) (ds ++ es) := by
  induction h with
  | nil => exact k
  | cons hf _ ih =>
      rw [List.cons_append, List.append_assoc]
      exact .cons hf ih

/-- The steps that a block is compiled to. -/
def Compile.Outcome.steps : Compile.Outcome → List Op
  | .value e _ => [.expr e]
  | .ops steps => steps

namespace Workspace

open Compile

variable {w : Workspace} {t : Compiler} {x : String} {b : Block} {d : Declaration} {n : Nat}

/-! ### Single blocks -/

/-- Whether a block is compiled to the step for something. -/
def Asks (t : Compiler) (w : Workspace) (n : Nat) (b : Block) (ds : List Deed) : Prop :=
  Computes (outcome t w n b) (fun _ => True)
    fun o definitions => ∃ op, o.steps = [op] ∧ op.Carries definitions ds

section

variable (hs : w.Stocked) (ht : t.rules = stockRules) (hb : w.block? x = some b)
  (he : b.isEnabled = true) (hn : w.Nests (n + 1) x)

include hs ht hb he hn

theorem Stocked.asks_addText (hd : b.Stems .stock Vocabulary.addText) :
    ∃ ds, w.Does b ds ∧ w.Asks t (n + 1) b ds := by
  have hval := hs.valued ht n
  obtain ⟨u, hu, -, htext⟩ := hs.computes_operand hb hd "TEXT" "String" rfl (by decide) hval hn
    Precedence.none (by decide)
  obtain ⟨c, hc, -, hcolour⟩ := hs.computes_operand hb hd "COLOR" "Colour" rfl (by decide) hval hn
    Precedence.atomic (by decide)
  refine ⟨_, .line he hd.type_eq hu hc, ?_⟩
  rw [Asks, outcome_eq ht addText hd.type_eq rfl]
  unfold addText
  refine Computes.bind htext fun text _ => Computes.bind hcolour fun colour _ =>
    Computes.bind (Computes.define "add_text") fun name _ => ?_
  refine Computes.pure trivial fun definitions hname hc hu => ⟨_, rfl, .line fun lines => ?_⟩
  obtain ⟨s, hs, hrun⟩ := hname
  rw [Expr.eval_call (.cons hu (.cons hc .nil)) hs, hrun]
  rfl

omit hs hb hn in
theorem Stocked.asks_wait (hd : b.Stems .stock Vocabulary.wait) :
    ∃ ds, w.Does b ds ∧ w.Asks t (n + 1) b ds := by
  obtain ⟨u, hu, hcoerced⟩ := hd.exists_field (f := "SECONDS") rfl rfl
  have hnum : u.Numeric := by
    rcases hcoerced with rfl | ⟨u', hu'⟩
    · exact Value.numeric_int (by decide +kernel)
    · exact Socket.numeric_of_coerce_whole rfl rfl rfl rfl hu'
  obtain ⟨x, hx, -⟩ := hnum.read
  refine ⟨_, .sleep he hd.type_eq hu hx, ?_⟩
  rw [Asks, outcome_eq ht wait hd.type_eq rfl]
  unfold wait
  have hfield : Site.field ⟨b, operand t w n b⟩ "SECONDS" = u := by rw [Site.field, hu]; rfl
  have hnull : u ≠ .null := fun hnull => by
    obtain ⟨k, hk⟩ := hnum.number
    rw [hnull] at hk
    cases hk
  refine Computes.bind (Computes.require _) fun _ _ => ?_
  dsimp only
  rw [hfield, if_neg hnull]
  exact Computes.pure trivial fun definitions _ => ⟨_, rfl, .sleep (Expr.evaluates_literal u) hx⟩

theorem Stocked.asks_value (hd : b.Stems .stock d) (hv : d.isValue = true) :
    ∃ ds, w.Does b ds ∧ w.Asks t (n + 1) b ds := by
  obtain ⟨v, hm, -, hcomp⟩ := hs.valued ht (n + 1) x b d hn hb hd hv
  refine ⟨_, .value he hm, fun draft hdraft => (hcomp draft hdraft).mono (fun o d' ho => ?_)
    fun _ _ he => he⟩
  obtain ⟨hfine, hgrows, ⟨e, order, rfl, -⟩, hev⟩ := ho
  exact ⟨hfine, hgrows, trivial, fun definitions hserves =>
    ⟨_, rfl, .expr (hev definitions hserves e order rfl)⟩⟩

/-- A block that is turned on is compiled to the step for what it asks for. -/
theorem Stocked.exists_asks : ∃ ds, w.Does b ds ∧ w.Asks t (n + 1) b ds := by
  obtain ⟨d, hd⟩ := hs.stems x b hb
  have hmem := Vocabulary.mem_of_lookup hd.declared
  simp only [Vocabulary.stock, List.mem_cons, List.not_mem_nil, or_false] at hmem
  rcases hmem with rfl | rfl | rfl | rfl | rfl | rfl | rfl
  · exact hs.asks_addText ht hb he hn hd
  · exact Stocked.asks_wait ht he hd
  all_goals exact hs.asks_value ht hb he hn hd rfl

end

/-! ### Chains -/

section

variable (hs : w.Stocked) (ht : t.rules = stockRules)
  (hn : ∀ x, (w.block? x).isSome → w.Nests nestingLimit x)

include hs ht hn

/-- The fragment of a block has the step for what the block asks for. -/
theorem Stocked.computes_fragment (hb : w.block? x = some b) (he : b.isEnabled = true) :
    ∃ ds, w.Does b ds ∧ Computes (fragment t w b) (fun _ => True)
      fun f definitions => f.Carries definitions ds := by
  have hsome : (w.block? x).isSome := by rw [hb]; rfl
  obtain ⟨ds, hdoes, hasks⟩ := hs.exists_asks ht hb he (hn x hsome)
  refine ⟨ds, hdoes, ?_⟩
  unfold fragment
  refine Computes.bind hasks fun o _ => ?_
  have hid : b.id = .text x := hs.sound.id_eq hb
  cases o with
  | value e order =>
      refine Computes.pure trivial fun definitions hcarries => ?_
      obtain ⟨op, hop, hcarries⟩ := hcarries
      exact ⟨x, op, hid, hop, hcarries⟩
  | ops ops =>
      refine Computes.pure trivial fun definitions hcarries => ?_
      obtain ⟨op, hop, hcarries⟩ := hcarries
      exact ⟨x, op, hid, hop, hcarries⟩

/-- The fragments of the blocks that are turned on have the steps for what all of them ask for. -/
theorem Stocked.computes_fragments {bs : List Block}
    (hbs : ∀ b ∈ bs, ∃ x, w.block? x = some b) :
    ∃ parts, List.Forall₂ w.Does bs parts ∧
      Computes ((bs.filter (·.isEnabled)).mapM (fragment t w)) (fun _ => True)
        fun fs definitions => Carries definitions fs parts.flatten := by
  induction bs with
  | nil => exact ⟨[], .nil, Computes.pure trivial fun _ => .nil⟩
  | cons b bs ih =>
      obtain ⟨parts, hdoes, hcomp⟩ := ih fun b hb => hbs b (List.mem_cons_of_mem _ hb)
      obtain ⟨x, hb⟩ := hbs b List.mem_cons_self
      cases he : b.isEnabled with
      | false =>
          refine ⟨[] :: parts, .cons (.off he) hdoes, ?_⟩
          rw [List.filter_cons_of_neg (by rw [he]; exact Bool.false_ne_true)]
          exact hcomp
      | true =>
          obtain ⟨ds, hds, hfragment⟩ := hs.computes_fragment ht hn hb he
          refine ⟨ds :: parts, .cons hds hdoes, ?_⟩
          rw [List.filter_cons_of_pos he, List.mapM_cons]
          refine Computes.bind hfragment fun f _ => Computes.bind hcomp fun fs _ => ?_
          exact Computes.pure trivial fun definitions hfs hf => .cons hf hfs

end

theorem Sound.row_of_lineage (h : w.Sound) {m : List String} (hm : Lineage w.next? x m)
    {c : List (Key × Block)}
    (hc : List.Forall₂ (fun y e => e.1 = .text y ∧ w.block? y = some e.2) m c) :
    w.Row x (c.map (·.2)) := by
  induction hm generalizing c with
  | @root x hr =>
      obtain ⟨e, c, ⟨-, hb⟩, hnil, rfl⟩ := List.forall₂_cons_left_iff.mp hc
      obtain rfl := List.forall₂_nil_left_iff.mp hnil
      refine .last hb ?_
      rw [h.next_eq hb, ← next?, hr]
      rfl
  | @step x y l hy hl ih =>
      obtain ⟨e, c, ⟨-, hb⟩, hrest, rfl⟩ := List.forall₂_cons_left_iff.mp hc
      exact .more hb (by rw [h.next_eq hb, ← next?, hy]; rfl) (ih hrest)

section

variable (hs : w.Stocked) (ht : t.rules = stockRules)
  (hn : ∀ x, (w.block? x).isSome → w.Nests nestingLimit x)

include hs ht hn

theorem Stocked.computes_chain (hx : (w.block? x).isSome) {top : Block}
    (hid : top.id = .text x) :
    ∃ bs parts, w.Row x bs ∧ List.Forall₂ w.Does bs parts ∧
      Computes (Compile.chain t w top) (fun _ => True)
        fun fs definitions => Carries definitions fs parts.flatten := by
  obtain ⟨m, c, hm, hc, hall⟩ := hs.sound.exists_chain hx
  have hbs : ∀ b ∈ c.map (·.2), ∃ x, w.block? x = some b := fun b hb => by
    obtain ⟨e, he, rfl⟩ := List.mem_map.mp hb
    obtain ⟨y, -, -, hy⟩ := exists_of_mem_forall₂ hall he
    exact ⟨y, hy⟩
  obtain ⟨parts, hdoes, hcomp⟩ := hs.computes_fragments ht hn hbs
  refine ⟨_, parts, hs.sound.row_of_lineage hm hall, hdoes, ?_⟩
  have hwalk : (do w.chain (← top.id.toKey)) = .ok c := by
    rw [hid]
    exact hc
  exact Computes.bind_ofExcept hwalk hcomp

theorem Stocked.computes_chains {tops : List Block}
    (htops : ∀ b ∈ tops, ∃ x, w.block? x = some b) :
    ∃ ds, w.Reads tops ds ∧ Computes (tops.mapM (Compile.chain t w)) (fun _ => True)
      fun fss definitions => Carries definitions fss.flatten ds := by
  induction tops with
  | nil =>
      exact ⟨[], ⟨[], [], .nil, .nil, rfl⟩, Computes.pure trivial fun _ => .nil⟩
  | cons top tops ih =>
      obtain ⟨ds, ⟨rows, parts, hrows, hparts, rfl⟩, hcomp⟩ :=
        ih fun b hb => htops b (List.mem_cons_of_mem _ hb)
      obtain ⟨x, hx⟩ := htops top List.mem_cons_self
      have hid := hs.sound.id_eq hx
      obtain ⟨bs, parts', hrow, hdoes, hchain⟩ :=
        hs.computes_chain ht hn (by rw [hx]; rfl) hid
      refine ⟨_, ⟨bs :: rows, parts' ++ parts, .cons ⟨x, hid, hrow⟩ hrows, ?_, rfl⟩, ?_⟩
      · rw [List.flatten_cons]
        exact List.rel_append hdoes hparts
      · rw [List.mapM_cons, List.flatten_append]
        refine Computes.bind hchain fun fs _ => Computes.bind hcomp fun fss _ => ?_
        refine Computes.pure trivial fun definitions hfss hfs => ?_
        rw [List.flatten_cons]
        exact hfs.append hfss

omit ht hn in
/-- The blocks at the top are blocks of the workspace. -/
theorem Stocked.exists_tops : ∃ tops, w.tops = .ok tops ∧ ∀ b ∈ tops, ∃ x, w.block? x = some b := by
  have hplaced : w.Placed := fun x b hb => by
    obtain ⟨d, hd⟩ := hs.stems x b hb
    exact hd.placed
  obtain ⟨tops, htops, hperm, -⟩ := hs.sound.exists_tops hplaced
  refine ⟨tops, htops, fun b hb => ?_⟩
  obtain ⟨e, he, rfl⟩ := List.mem_map.mp (List.mem_of_mem_filter (hperm.mem_iff.mp hb))
  obtain ⟨x, -, hx⟩ := hs.sound.key_text (find?_of_mem_entries he)
  exact ⟨x, hx⟩

/-- **The program of a workspace has the steps for what the workspace asks for.** -/
theorem Stocked.exists_program {tops : List Block} (htops : w.tops = .ok tops)
    (hmem : ∀ b ∈ tops, ∃ x, w.block? x = some b) :
    ∃ ds p, w.Reads tops ds ∧ t.program w = .ok p ∧ Carries p.definitions p.fragments ds := by
  obtain ⟨ds, hreads, hcomp⟩ := hs.computes_chains ht hn hmem
  have hall : Computes (chains t w) (fun _ => True)
      fun fss definitions => Carries definitions fss.flatten ds := by
    refine Computes.bind_ofExcept htops (Computes.bind hcomp fun fss _ => ?_)
    refine Computes.pure trivial fun definitions h => ?_
    rw [List.flatten_filter_not_isEmpty]
    exact h
  have hfine : Draft.Fine { used := t.reserved } := by
    refine ⟨List.nodup_nil, fun s hs => ?_, fun k name hk => ?_⟩
    · cases hs
    · cases hk
  obtain ⟨fss, draft, hrun, hdraft, -, -, hserves⟩ := (hall _ hfine).exists_ok
  refine ⟨ds, { chains := fss, definitions := draft.definitions, imports := draft.imports }, hreads,
    ?_, hserves _ hdraft.serves⟩
  rw [Compiler.program, hrun]

/-- Where values are not plugged too deeply into one another there is a program. -/
theorem Stocked.isOk_program : ∃ p, t.program w = .ok p := by
  obtain ⟨tops, htops, hmem⟩ := hs.exists_tops
  obtain ⟨_, p, -, hp, -⟩ := hs.exists_program ht hn htops hmem
  exact ⟨p, hp⟩

end

end Workspace

end Blockwork
