import Blockwork.Proofs.Drafting

/-!
# Invariants of compilation

What the rules of a compiler keep of a draft, and make of the blocks they are for, is so of whole
programs.  What is said of a rule is said under the condition that it is so of what is plugged in
(`Compile.Rule.Yields`); from this it follows for a block with all that is plugged into it, by
induction on how deep that is (`Compile.yields_outcome`), and from this for the chains of a
workspace (`Compile.yields_chains`) and its program (`Compile.exists_outcomes`).  What the stock
rules make is said once (`Compile.Made`), for all that is to be said of it (`Compile.yields_made`).
-/

namespace Blockwork

namespace Compile

/-- Whether a part of a compilation keeps a property of drafts, with an answer of a kind. -/
def Yields {α : Type} (P : Draft → Prop) (good : α → Prop) (x : Drafting α) : Prop :=
  ∀ d, P d → Ends x d (fun a d' => good a ∧ P d') fun _ d' => P d'

/-- Whether a rule makes outcomes of a kind out of blocks of a kind, and keeps a property of drafts,
when what is plugged in does and gives expressions of a kind for each place. -/
def Rule.Yields (P : Draft → Prop) (B : Block → Prop) (plugged : Value → Expr → Prop)
    (made : Outcome → Prop) (rule : Rule) : Prop :=
  ∀ site : Site, B site.block →
    (∀ name order, Compile.Yields P (plugged order) (site.plug name order)) →
      Compile.Yields P made (rule site)

/-- What is made of a block, as a fragment. -/
def Outcome.fragment (b : Block) : Outcome → Fragment
  | .value e _ => { block := b.id, type := b.type, ops := [.expr e], isStatement := false }
  | .ops steps => { block := b.id, type := b.type, ops := steps }

namespace Yields

variable {α β : Type} {P : Draft → Prop} {good : α → Prop} {good' : β → Prop} {x : Drafting α}

theorem pure {a : α} (h : good a) : Yields P good (pure a) := fun _ hd => Ends.pure ⟨h, hd⟩

theorem throw (e : Error) : Yields P good (throw e) := fun _ hd => Ends.throw hd

theorem bind {f : α → Drafting β} (h : Yields P good x) (k : ∀ a, good a → Yields P good' (f a)) :
    Yields P good' (x >>= f) := fun d hd =>
  Ends.bind ((h d hd).mono (fun a d' ha => k a ha.1 d' ha.2) fun _ _ hd' => hd')

theorem ofExcept {r : Except Error α} (h : ∀ a, r = .ok a → good a) :
    Yields P good (Compile.ofExcept r) := by
  cases r with
  | ok a => exact pure (h a rfl)
  | error e => exact throw e

theorem mono {good'' : α → Prop} (h : Yields P good x) (hg : ∀ a, good a → good'' a) :
    Yields P good'' x := fun d hd =>
  (h d hd).mono (fun a _ ha => ⟨hg a ha.1, ha.2⟩) fun _ _ he => he

/-- Whatever a part answers that needs no draft, it keeps a property of drafts. -/
theorem read (r : Except Error α) : Yields P (fun _ => True) (Compile.ofExcept r) :=
  ofExcept fun _ _ => trivial

theorem mapM {f : α → Drafting β} {as : List α} (h : ∀ a ∈ as, Yields P good' (f a)) :
    Yields P (fun bs => ∀ b ∈ bs, good' b) (as.mapM f) := by
  induction as with
  | nil => exact pure fun b hb => nomatch hb
  | cons a as ih =>
      rw [List.forall_mem_cons] at h
      rw [List.mapM_cons]
      refine h.1.bind fun b hb => (ih h.2).bind fun bs hbs => pure ?_
      exact List.forall_mem_cons.mpr ⟨hb, hbs⟩

/-- A definition that is asked for has its name already, or is granted one. -/
theorem define {named : String → Prop} {wanted : Key} {lines : Except Error (List String)}
    {run : List Value → Emit Value}
    (hheld : ∀ d name, P d → Entries.get? d.granted wanted = some name → named name)
    (hgrant : ∀ d name shown, P d → Entries.get? d.granted wanted = none →
      (Value.ofKey (Names.distinct d.used wanted)).toText = .ok name → lines = .ok shown →
      named name ∧ P (d.grant wanted ⟨name, definitionText name shown, run⟩)) :
    Yields P named (Compile.define wanted lines run) := by
  intro d hd
  unfold Compile.define
  refine Ends.bind (Ends.get ?_)
  split
  · rename_i name hname
    exact Ends.pure ⟨hheld d name hd hname, hd⟩
  · rename_i hnone
    refine Ends.bind ?_
    cases hname : (Value.ofKey (Names.distinct d.used wanted)).toText with
    | error e => exact Ends.throw hd
    | ok name =>
        refine Ends.pure (Ends.bind ?_)
        cases lines with
        | error e => exact Ends.throw hd
        | ok shown =>
            obtain ⟨hnamed, hgranted⟩ := hgrant d name shown hd hnone hname rfl
            exact Ends.pure (Ends.bind (Ends.set (Ends.pure ⟨hnamed, hgranted⟩)))

theorem require {statement : Value}
    (h : ∀ d, P d → P { d with imports := d.imports ++ [statement] }) :
    Yields P (fun _ => True) (Compile.require statement) := by
  intro d hd
  refine Ends.modify ⟨trivial, ?_⟩
  split
  · exact hd
  · exact h d hd

end Yields

/-! ### Blocks that are compiled -/

/-- The blocks of a chain are blocks of the workspace. -/
theorem find?_of_mem_chainFrom {w : Workspace} {n : Nat} {k : Key} {bs : List (Key × Block)}
    (h : w.chainFrom n k = .ok bs) {e : Key × Block} (he : e ∈ bs) : w.find? e.1 = some e.2 := by
  induction n generalizing k bs with
  | zero =>
      cases h
      cases he
  | succ n ih =>
      unfold Workspace.chainFrom at h
      split at h
      · cases h
        cases he
      · rename_i b hb
        split at h
        · obtain ⟨j, -, h⟩ := exists_of_bind_ok h
          obtain ⟨rest, hrest, h⟩ := exists_of_bind_ok h
          cases h
          rcases List.mem_cons.mp he with rfl | he
          · exact hb
          · exact ih hrest he
        · cases h
          obtain rfl := List.mem_singleton.mp he
          exact hb

/-- What is plugged in is a block of the workspace. -/
theorem find?_of_occupant {w : Workspace} {b c : Block} {name : Key}
    (h : occupant w b name = .ok (some c)) : ∃ k, w.find? k = some c := by
  unfold occupant at h
  dsimp only at h
  split at h
  · obtain ⟨k, -, hc⟩ := exists_of_bind_ok h
    exact ⟨k, (Option.filter_eq_some_iff.mp (Except.ok.inj hc)).1⟩
  · cases h

/-- What an empty socket is compiled to is the literal of one of the types that it takes. -/
theorem exists_of_fallback {w : Workspace} {b : Block} {name : Key} {e : Expr}
    (h : fallback w b name = .ok e) : ∃ types v, fallbackAmong types = .ok v ∧ e = .literal v := by
  obtain ⟨d, -, h⟩ := exists_of_bind_ok h
  obtain ⟨v, hv, h⟩ := exists_of_bind_ok h
  exact ⟨_, v, hv, (Except.ok.inj h).symm⟩

/-! ### Programs -/

section

variable {t : Compiler} {w : Workspace} {P : Draft → Prop} {B : Block → Prop}
  {plugged : Value → Expr → Prop} {made : Outcome → Prop}
  (hrules : ∀ e ∈ t.rules, e.2.Yields P B plugged made)
  (hblocks : ∀ k b, w.find? k = some b → B b)
  (hempty : ∀ types order v, fallbackAmong types = .ok v → plugged order (.literal v))
  (hgrouped : ∀ order e inner e', made (.value e inner) → grouped order e inner = .ok e' →
    plugged order e')

include hrules hblocks hempty hgrouped

/-- What is made of a block is of the kind that the rules make, at whatever depth. -/
theorem yields_outcome (n : Nat) {b : Block} (hb : B b) : Yields P made (outcome t w n b) := by
  induction n generalizing b with
  | zero => exact Yields.throw _
  | succ n ih =>
      unfold outcome
      refine (Yields.read _).bind fun k _ => ?_
      split
      · exact Yields.throw _
      rename_i rule hrule
      obtain ⟨j, hj, -⟩ := Entries.exists_mem_of_get? hrule
      refine hrules _ hj _ hb fun name order => ?_
      have hoccupant : Yields P (fun c => ∀ b, c = some b → B b)
          (Compile.ofExcept (occupant w b name)) := Yields.ofExcept fun c hc b hb => by
        subst hb
        obtain ⟨k, hk⟩ := find?_of_occupant hc
        exact hblocks k b hk
      refine hoccupant.bind fun c hc => ?_
      split
      · refine Yields.ofExcept fun e he => ?_
        obtain ⟨types, v, hv, rfl⟩ := exists_of_fallback he
        exact hempty types order v hv
      · refine (ih (hc _ rfl)).bind fun o ho => ?_
        split
        · exact Yields.ofExcept fun e' he' => hgrouped _ _ _ _ ho he'
        · exact Yields.throw _

/-- The fragments of the chains of a workspace are what is made of its blocks. -/
theorem yields_chains : Yields P (fun chains => ∀ fs ∈ chains, ∀ f ∈ fs,
    ∃ k b o, w.find? k = some b ∧ made o ∧ f = o.fragment b) (chains t w) := by
  have fragment {k : Key} {b : Block} (hb : w.find? k = some b) :
      Yields P (fun f => ∃ k b o, w.find? k = some b ∧ made o ∧ f = o.fragment b)
        (fragment t w b) := by
    refine (yields_outcome hrules hblocks hempty hgrouped nestingLimit (hblocks k b hb)).bind
      fun o ho => ?_
    cases o with
    | value e order => exact Yields.pure ⟨k, b, _, hb, ho, rfl⟩
    | ops ops => exact Yields.pure ⟨k, b, _, hb, ho, rfl⟩
  have chain (top : Block) : Yields P (fun fs => ∀ f ∈ fs, ∃ k b o, w.find? k = some b ∧ made o ∧
      f = o.fragment b) (chain t w top) := by
    have hblock : Yields P (fun bs => ∀ e ∈ bs, w.find? e.1 = some e.2)
        (Compile.ofExcept (do w.chain (← top.id.toKey))) := Yields.ofExcept fun bs hbs e he => by
      obtain ⟨k, -, hchain⟩ := exists_of_bind_ok hbs
      exact find?_of_mem_chainFrom hchain he
    refine hblock.bind fun bs hbs => Yields.mapM fun b hb => ?_
    obtain ⟨e, he, rfl⟩ := List.mem_map.mp (List.mem_filter.mp hb).1
    exact fragment (hbs e he)
  refine (Yields.read _).bind fun tops _ => ?_
  refine (Yields.mapM fun top _ => chain top).bind fun all hall => ?_
  exact Yields.pure fun fs hfs => hall fs (List.mem_filter.mp hfs).1

/-- **What a program is made of**: its fragments are what is made of the blocks of the workspace,
and it has the definitions and imports of a draft. -/
theorem exists_outcomes (hP : P { used := t.reserved }) {p : Program} (hp : t.program w = .ok p) :
    (∀ f ∈ p.fragments, ∃ k b o, w.find? k = some b ∧ made o ∧ f = o.fragment b) ∧
      ∃ d, P d ∧ p.definitions = d.definitions ∧ p.imports = d.imports := by
  have hends := yields_chains hrules hblocks hempty hgrouped _ hP
  obtain ⟨fss, d, hd, rfl⟩ := exists_chains_of_program hp
  rw [Ends.of_ok hd] at hends
  refine ⟨fun f hf => ?_, d, hends.2, rfl, rfl⟩
  obtain ⟨fs, hfs, hf⟩ := List.mem_flatten.mp hf
  exact hends.1 fs hfs f hf

end

/-! ### The stock rules -/

/-- What the stock rules make of a block, with expressions of a kind for each place and with names
of a kind for the definitions that are asked for. -/
inductive Made (b : Block) (plugged : Value → Expr → Prop) (named : String → String → Prop) :
    Outcome → Prop where
  | addText {text colour : Expr} {name : String} : plugged Precedence.none text →
      plugged Precedence.atomic colour → named "add_text" name →
      Made b plugged named (.ops [.call (.text name) [text, colour]])
  | wait {v : Value} : v = .int 0 ∨ v = (Entries.get? b.fields "SECONDS").getD .null →
      Made b plugged named (.ops [.sleep (.literal v)])
  | text (s : String) : Made b plugged named (.value (.literal (.text s)) Precedence.atomic)
  | textJoin {left right : Expr} : plugged Precedence.additive left →
      plugged Precedence.additive right →
      Made b plugged named (.value (.concat left right) Precedence.additive)
  | colourPicker : Made b plugged named
      (.value (.literal ((Entries.get? b.fields "COLOUR").getD .null)) Precedence.atomic)
  | colourRgb {red green blue : Expr} {name : String} : plugged Precedence.none red →
      plugged Precedence.none green → plugged Precedence.none blue → named "colour_rgb" name →
      Made b plugged named (.value (.call (.text name) [red, green, blue]) Precedence.functionCall)
  | mathNumber {v order : Value} : v = .int 0 ∨ v = (Entries.get? b.fields "NUM").getD .null →
      Made b plugged named (.value (.literal v) order)

/-- **What the stock rules make**, if definitions that are asked for get names of a kind, and asking
for them and for the import keeps the property of drafts. -/
theorem yields_made {P : Draft → Prop} {plugged : Value → Expr → Prop}
    {named : String → String → Prop}
    (hadd : Yields P (named "add_text") (define "add_text" (.ok addTextLines) addTextRun))
    (hcolour : Yields P (named "colour_rgb") (define "colour_rgb" (.ok colourRgbLines) colourRgbRun))
    (himport : Yields P (fun _ => True) (require (.text "import asyncio")))
    {e : Key × Rule} (he : e ∈ stockRules) {site : Site}
    (hplug : ∀ name order, Yields P (plugged order) (site.plug name order)) :
    Yields P (Made site.block plugged named) (e.2 site) := by
  simp only [stockRules, List.mem_cons, List.not_mem_nil, or_false] at he
  rcases he with rfl | rfl | rfl | rfl | rfl | rfl | rfl
  · exact (hplug _ _).bind fun text htext => (hplug _ _).bind fun colour hc =>
      hadd.bind fun name hname => Yields.pure (.addText htext hc hname)
  · refine himport.bind fun _ _ => Yields.pure (.wait ?_)
    split
    · exact .inl rfl
    · exact .inr rfl
  · exact Yields.pure (.text _)
  · exact (hplug _ _).bind fun left hleft => (hplug _ _).bind fun right hright =>
      Yields.pure (.textJoin hleft hright)
  · exact Yields.pure .colourPicker
  · exact (hplug _ _).bind fun red hred => (hplug _ _).bind fun green hgreen =>
      (hplug _ _).bind fun blue hblue => hcolour.bind fun name hname =>
        Yields.pure (.colourRgb hred hgreen hblue hname)
  · refine (Yields.read _).bind fun n _ => Yields.pure (.mathNumber ?_)
    split
    · exact .inr rfl
    · exact .inl rfl

end Compile

end Blockwork
