import Blockwork.Proofs.Legible
import Blockwork.Proofs.Needing

/-!
# Lines of programs

Imports, definitions and steps share one text without anything between them but new lines, yet the
lines of steps can be picked out: no line of a step begins with a blank, or like an import or a
definition (`Text.isStep`).  What is picked out of a text that is put together of whole lines is
what is picked out of the parts (`Text.stepLines_append`), so what is picked out of the text of a
legible program are the lines of its steps, in order (`Program.Legible.stepLines_render`), and the
text determines the steps (`Program.Legible.akin_ops`).
-/

namespace Blockwork

namespace Text

/-- Whether a line is one of a step. -/
def isStep : List Char → Bool
  | [] => false
  | c :: _ => c ∉ [' ', 'd', 'i']

/-- The lines of steps in a text. -/
def stepLines (cs : List Char) : List (List Char) := (cs.splitOnP (· == '\n')).filter isStep

variable {cs ds : List Char}

/-- A new line divides a text. -/
theorem stepLines_append (cs ds : List Char) :
    stepLines (cs ++ '\n' :: ds) = stepLines cs ++ stepLines ds := by
  rw [stepLines, List.splitOnP_append_cons cs ds (by decide), List.filter_append]
  rfl

theorem stepLines_of_notMem (h : '\n' ∉ cs) : stepLines cs = if isStep cs then [cs] else [] := by
  have hno : ∀ c ∈ cs, (c == '\n') = false := fun c hc =>
    beq_false_of_ne fun he => h (he ▸ hc)
  rw [stepLines, List.splitOnP_eq_singleton hno, List.filter_singleton, Bool.cond_eq_ite]

theorem stepLines_intercalate (parts : List (List Char)) :
    stepLines (['\n'].intercalate parts) = parts.flatMap stepLines := by
  induction parts with
  | nil => rfl
  | cons cs parts ih =>
      cases parts with
      | nil => simp
      | cons ds parts =>
          rw [List.intercalate_cons_cons, List.append_assoc, List.singleton_append,
            stepLines_append, ih, List.flatMap_cons, List.flatMap_cons, List.flatMap_cons]

end Text

open Text (stepLines stepLines_append)

/-! ### Steps -/

theorem Op.Legible.stepLines_line {op : Op} (h : op.Legible) : stepLines op.line = [op.line] := by
  obtain ⟨c, cs, hline, hc⟩ := h.exists_head
  rw [Text.stepLines_of_notMem h.newline_notMem, if_pos]
  rw [hline]
  exact decide_eq_true hc

/-- The lines that are picked out of the lines of steps are just these. -/
theorem Op.stepLines_ops {ops : List Op} (h : ∀ op ∈ ops, op.Legible) :
    stepLines (ops.flatMap (·.render.toList)) = ops.map Op.line := by
  induction ops with
  | nil => rfl
  | cons op ops ih =>
      obtain ⟨hop, hops⟩ := List.forall_mem_cons.mp h
      rw [List.flatMap_cons, Op.toList_render, List.append_assoc, List.singleton_append,
        stepLines_append, hop.stepLines_line, ih hops, List.map_cons, List.singleton_append]

/-- Legible steps with the same lines are the same. -/
theorem Op.akin_of_lines {ops ops' : List Op} (h : ∀ op ∈ ops, op.Legible)
    (h' : ∀ op ∈ ops', op.Legible) (he : ops.map Op.line = ops'.map Op.line) :
    List.Forall₂ Op.Akin ops ops' := by
  induction ops generalizing ops' with
  | nil =>
      obtain rfl := List.map_eq_nil_iff.mp he.symm
      exact .nil
  | cons op ops ih =>
      obtain ⟨op', rest, rfl, hline, hrest⟩ := List.map_eq_cons_iff.mp he.symm
      rw [List.forall_mem_cons] at h h'
      exact .cons (h.1.akin_of_line h'.1 hline.symm) (ih h.2 h'.2 hrest.symm)

theorem Op.eq_of_akin {ops ops' : List Op} (h : List.Forall₂ Op.Akin ops ops')
    (hd : ∀ op ∈ ops, op.Definite) : ops = ops' := by
  induction h with
  | nil => rfl
  | cons hop _ ih =>
      rw [List.forall_mem_cons] at hd
      rw [hop.eq hd.1, ih hd.2]

/-! ### Definitions and imports -/

/-- Whether a text has no line of a step. -/
def Silent (s : String) : Prop := stepLines s.toList = []

/-- A line that begins like none of a step is none. -/
theorem silent_of_head {s : String} (hn : '\n' ∉ s.toList)
    (hs : ∀ c ∈ s.toList.head?, c ∈ [' ', 'd', 'i']) : Silent s := by
  rw [Silent, Text.stepLines_of_notMem hn, if_neg]
  cases hcs : s.toList with
  | nil => exact Bool.false_ne_true
  | cons c cs =>
      have hc := hs c (by rw [hcs]; rfl)
      exact fun h => of_decide_eq_true h hc

theorem silent_sleepImport : Silent "import asyncio" :=
  silent_of_head (by decide) fun _ hc => Option.some.inj hc ▸ by decide

namespace Compile

/-- A definition has no line of a step, whatever it is named, if none of its other lines is one. -/
theorem silent_definitionText {name after : String} {others : List String}
    (hafter : '\n' ∉ after.toList ∧ '\x7b' ∉ after.toList)
    (hothers : ∀ s ∈ others, Silent s ∧ '\x7b' ∉ s.toList) (hname : '\n' ∉ name.toList) :
    Silent (definitionText name (("def " ++ placeholder ++ after) :: others)) := by
  let rest := after.toList ++ (others.map String.toList).flatMap (['\n'] ++ ·)
  have hlines : "\n".intercalate (("def " ++ placeholder ++ after) :: others) =
      placeholder.intercalate ["def ", String.ofList rest] := by
    rw [← String.toList_inj, String.toList_intercalate, List.map_cons]
    change ['\n'].intercalate _ = _
    rw [List.intercalate_cons]
    simp [rest]
  have hfree : '\x7b' ∉ rest := by
    simp only [rest, List.mem_append, List.mem_flatMap, List.mem_map, not_or]
    refine ⟨hafter.2, ?_⟩
    rintro ⟨_, ⟨s, hs, rfl⟩, hmem⟩
    rcases hmem with hmem | hmem
    · exact absurd hmem (by decide)
    · exact (hothers s hs).2 hmem
  have hparts : ∀ part ∈ ["def ", String.ofList rest], ¬ placeholder.toList <:+: part.toList := by
    intro part hpart hinfix
    have hmem : '\x7b' ∈ part.toList :=
      hinfix.subset (by rw [placeholder_toList]; exact List.mem_cons_self)
    rcases List.mem_pair.mp hpart with rfl | rfl
    · exact absurd hmem (by decide)
    · rw [String.toList_ofList] at hmem
      exact hfree hmem
  have htext : name.intercalate ["def ", String.ofList rest] = definitionText name _ :=
    fills_iff.mp ⟨_, hlines, hparts, rfl⟩
  -- the name only makes the first line longer
  have hfirst : Silent ("def " ++ name ++ after) := by
    refine silent_of_head ?_ ?_
    · simp [hname, hafter.1]
    · simp
  have hchars : (definitionText name (("def " ++ placeholder ++ after) :: others)).toList =
      ['\n'].intercalate ((("def " ++ name ++ after) :: others).map String.toList) := by
    rw [← htext, List.map_cons, List.intercalate_cons]
    simp [rest]
  rw [Silent, hchars, Text.stepLines_intercalate, List.flatMap_map, List.flatMap_eq_nil_iff]
  exact List.forall_mem_cons.mpr ⟨hfirst, fun s hs => (hothers s hs).1⟩

/-- The definitions that the stock rules ask for have no line of a step. -/
theorem silent_answer {q : Request} (hq : q ∈ stockRequests) {name : String}
    (hname : '\n' ∉ name.toList) : Silent (q.answer name).text := by
  have hblank {s : String} (h : '\n' ∉ s.toList ∧ s.toList.head? = some ' ' ∧ '\x7b' ∉ s.toList) :
      Silent s ∧ '\x7b' ∉ s.toList := by
    refine ⟨silent_of_head h.1 fun c hc => ?_, h.2.2⟩
    rw [h.2.1] at hc
    exact Option.some.inj hc ▸ List.mem_cons_self
  rcases List.mem_pair.mp hq with rfl | rfl
  · refine silent_definitionText (by decide) (fun s hs => hblank ?_) hname
    rcases List.mem_pair.mp hs with rfl | rfl
    · decide
    · decide
  · refine silent_definitionText (by decide) (fun s hs => hblank ?_) hname
    rcases List.mem_pair.mp hs with rfl | rfl
    · decide
    · decide

end Compile

/-! ### Programs -/

/-- Whether the steps of a program can be seen from its text. -/
structure Program.Legible (p : Program) : Prop where
  steps : ∀ op ∈ p.ops, op.Legible
  definitions : ∀ s ∈ p.definitions, Silent s.text
  imports : ∀ v ∈ p.imports, ∃ s, v = .text s ∧ Silent s

namespace Program

theorem toList_renderChain (fs : List Fragment) :
    (renderChain fs).toList = (fs.flatMap (·.ops)).flatMap (·.render.toList) := by
  simp only [renderChain, Fragment.render, String.toList_join, List.flatMap_map, List.flatMap_assoc]

theorem stepLines_join (parts : List String) :
    stepLines ("\n".intercalate parts).toList = parts.flatMap fun s => stepLines s.toList := by
  rw [String.toList_intercalate]
  change stepLines (['\n'].intercalate _) = _
  rw [Text.stepLines_intercalate, List.flatMap_map]

/-- A part that ends with a new line is divided from the next one by an empty line. -/
theorem silent_newline {s : String} (h : Silent s) : Silent (s ++ "\n") := by
  rw [Silent, String.toList_append]
  exact (stepLines_append s.toList []).trans (by rw [h]; rfl)

/-- The lines of steps in chains are those of the steps of their fragments. -/
theorem stepLines_chains {chains : List (List Fragment)}
    (h : ∀ op ∈ chains.flatten.flatMap (·.ops), op.Legible) :
    stepLines ("\n".intercalate (chains.map renderChain)).toList =
      (chains.flatten.flatMap (·.ops)).map Op.line := by
  rw [stepLines_join, List.flatMap_map]
  induction chains with
  | nil => rfl
  | cons fs chains ih =>
      rw [List.flatten_cons, List.flatMap_append] at h ⊢
      obtain ⟨hfs, hchains⟩ := List.forall_mem_append.mp h
      rw [List.flatMap_cons, toList_renderChain, Op.stepLines_ops hfs, ih hchains, List.map_append]

/-- **The lines of steps in the text of a legible program** are those of its steps. -/
theorem Legible.stepLines_render {p : Program} (h : p.Legible) {text : String}
    (ht : p.render = .ok text) : stepLines text.toList = p.ops.map Op.line := by
  obtain ⟨parts, hparts, ht⟩ := exists_of_bind_ok ht
  obtain ⟨imports, himports, hparts⟩ := exists_of_bind_ok hparts
  obtain rfl := Except.ok.inj ht
  obtain rfl := Except.ok.inj hparts
  have hsilent : ∀ s ∈ imports, Silent s := fun s hs => by
    obtain ⟨v, hv, htext⟩ := exists_of_mem_forall₂ (forall₂_of_mapM himports) hs
    obtain ⟨s', rfl, hs'⟩ := h.imports v hv
    obtain rfl := Except.ok.inj htext
    exact hs'
  have hbefore : Silent ("\n".intercalate imports ++ "\n") :=
    silent_newline ((stepLines_join imports).trans (List.flatMap_eq_nil_iff.mpr hsilent))
  have hdefinitions : ((p.definitions.map (·.text ++ "\n")).flatMap fun s => stepLines s.toList) =
      [] := by
    rw [List.flatMap_map, List.flatMap_eq_nil_iff]
    exact fun s hs => silent_newline (h.definitions s hs)
  have hfirst : (if imports.isEmpty then [] else ["\n".intercalate imports ++ "\n"]).flatMap
      (fun s => stepLines s.toList) = [] := by
    split
    · rfl
    · rw [List.flatMap_singleton, hbefore]
  have hlast (s : String) : (if s.isEmpty then [] else [s]).flatMap
      (fun s => stepLines s.toList) = stepLines s.toList := by
    split
    · rename_i hs
      rw [String.isEmpty_iff.mp hs]
      rfl
    · exact List.flatMap_singleton ..
  rw [stepLines_join, List.flatMap_append, List.flatMap_append, hdefinitions, hfirst, hlast,
    stepLines_chains h.steps]
  rfl

/-- **The text of a legible program determines its steps.** -/
theorem Legible.akin_ops {p q : Program} (hp : p.Legible) (hq : q.Legible) {text : String}
    (ht : p.render = .ok text) (hu : q.render = .ok text) : List.Forall₂ Op.Akin p.ops q.ops :=
  Op.akin_of_lines hp.steps hq.steps ((hp.stepLines_render ht).symm.trans (hq.stepLines_render hu))

end Program

end Blockwork
