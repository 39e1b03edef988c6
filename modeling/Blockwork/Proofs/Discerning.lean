import Blockwork.Proofs.Clearing
import Blockwork.Proofs.Domains
import Blockwork.Proofs.Lines
import Blockwork.Proofs.Plain
import Blockwork.Proofs.Rearranging
import Blockwork.Proofs.Turns
import Blockwork.Proofs.Yielding

/-!
# What the text of a program tells

The text of a program of the stock vocabulary determines its steps, also when it is prepared for
highlighting (`Chronicle.text_determines`).  The stock rules make legible programs
(`Compile.yields_stockRules`): the fields of a block hold scalars that are no infinite numbers
(`Chronicle.scalar`), definitions get names that stem from those that were asked for
(`Draft.Neat`), and of what is joined each side holds together by itself or is grouped.
-/

namespace Blockwork

open Compile (Request stockRequests)

/-! ### Drafts -/

/-- Whether the names of definitions stem from those that were asked for, and neither definitions
nor imports have a line of a step. -/
structure Draft.Neat (d : Draft) : Prop where
  granted : ∀ wanted name, Entries.get? d.granted (.text wanted) = some name →
    Names.Stems wanted name
  definitions : ∀ s ∈ d.definitions, Silent s.text
  imports : ∀ v ∈ d.imports, ∃ s, v = .text s ∧ Silent s

namespace Compile

theorem neat_start (used : List Key) : Draft.Neat { used } where
  granted _ _ h := nomatch h
  definitions _ h := nomatch h
  imports _ h := nomatch h

theorem word_wanted : ∀ q ∈ stockRequests, Text.Word q.wanted.toList := by
  intro q hq
  rcases List.mem_pair.mp hq with rfl | rfl
  · exact Names.word_addText
  · exact Names.word_colourRgb

/-- A request for a definition is answered by a name that stems from the one asked for. -/
theorem yields_ask {q : Request} (hq : q ∈ stockRequests) :
    Yields Draft.Neat (Names.Stems q.wanted) q.ask := by
  refine Yields.define (fun d name hd => hd.granted q.wanted name)
    fun d name shown hd _ hname hshown => ?_
  obtain ⟨_, hdistinct, n, rfl, -⟩ := Names.exists_next d.used q.wanted
  rw [hdistinct] at hname
  obtain rfl := Except.ok.inj hname
  obtain rfl := Except.ok.inj hshown
  have hstems : Names.Stems q.wanted (Names.candidate q.wanted n) := ⟨n, rfl⟩
  refine ⟨hstems, fun wanted name h => ?_, fun s hs => ?_, hd.imports⟩
  · rw [Draft.get?_granted] at h
    cases hold : Entries.get? d.granted (.text wanted) with
    | some old =>
        rw [hold, Option.some_or] at h
        exact hd.granted wanted name (hold.trans h)
    | none =>
        rw [hold, Option.none_or] at h
        split at h
        · rename_i he
          obtain rfl := Option.some.inj h
          rw [← Key.text.inj (Key.beq_text_iff.mp he)]
          exact hstems
        · cases h
  · rcases List.mem_append.mp hs with hs | hs
    · exact hd.definitions s hs
    · obtain rfl := List.mem_singleton.mp hs
      exact silent_answer hq (hstems.word (word_wanted q hq)).newline_notMem

theorem yields_require : Yields Draft.Neat (fun _ => True) (require sleepImport) := by
  refine Yields.require fun d hd => ⟨hd.granted, hd.definitions, fun v hv => ?_⟩
  rcases List.mem_append.mp hv with hv | hv
  · exact hd.imports v hv
  · exact ⟨_, List.mem_singleton.mp hv, silent_sleepImport⟩

/-! ### Rules -/

/-- Whether what is made of a block can be seen from how it is shown.  An expression that does not
hold together by itself is marked as one that is joined. -/
def Outcome.Legible : Outcome → Prop
  | .value e order => e.Legible ∧ (e.isAtom = true ∨ order = Precedence.additive)
  | .ops steps => ∀ op ∈ steps, op.Legible

/-- Whether an expression can be seen from how it is shown, in a place with a precedence. -/
def Fits (order : Value) (e : Expr) : Prop :=
  e.Legible ∧ (order = Precedence.additive → e.isAtom = true)

theorem fits_literal {k : Key} (h : k.Finite) (order : Value) : Fits order (.literal (.ofKey k)) :=
  ⟨.literal h, fun _ => rfl⟩

theorem fits_fallback {types : List Value} {order v : Value} (h : fallbackAmong types = .ok v) :
    Fits order (.literal v) := by
  induction types with
  | nil =>
      obtain rfl := Except.ok.inj h
      exact fits_literal Key.finite_null order
  | cons type types ih =>
      obtain ⟨k, -, h⟩ := exists_of_bind_ok h
      split at h
      · rename_i u hu
        obtain rfl := Except.ok.inj h
        unfold fallbackFor at hu
        split at hu
        · obtain rfl := Option.some.inj hu
          exact fits_literal (Key.finite_text _) order
        · obtain rfl := Option.some.inj hu
          exact fits_literal (Key.finite_text _) order
        · obtain rfl := Option.some.inj hu
          exact fits_literal (Key.finite_int _) order
        · cases hu
      · exact ih h

theorem needsGroup_additive :
    Precedence.needsGroup Precedence.additive Precedence.additive = .ok true := by
  have hnone : (Precedence.exempt.any fun p =>
      p.1.same Precedence.additive && p.2.same Precedence.additive) = false := by
    decide +kernel
  have hnumber : Precedence.additive.toNumber = .ok (.int 6) := rfl
  have hfloor : (Number.int 6).floor = .ok 6 := rfl
  unfold Precedence.needsGroup
  rw [hnumber]
  dsimp only [Bind.bind, Except.bind]
  rw [hfloor]
  dsimp only
  rw [if_neg (by decide), if_neg (by decide), hnone]
  rfl

/-- What is grouped where its place asks for it fits in there. -/
theorem fits_grouped {order inner : Value} {e e' : Expr} (h : (Outcome.value e inner).Legible)
    (he : grouped order e inner = .ok e') : Fits order e' := by
  obtain ⟨hlegible, hatom⟩ := h
  obtain ⟨needed, hneeded, he⟩ := exists_of_bind_ok he
  obtain rfl := Except.ok.inj he
  cases needed with
  | true => exact ⟨.group hlegible, fun _ => rfl⟩
  | false =>
      refine ⟨hlegible, fun horder => hatom.resolve_right fun hinner => ?_⟩
      rw [horder, hinner, needsGroup_additive] at hneeded
      cases hneeded

end Compile

/-- Whether whatever a field of a block may hold is a scalar and no infinite number, nor none. -/
def Block.Scalar (b : Block) : Prop :=
  ∀ name, ∃ k : Key, (Entries.get? b.fields name).getD .null = .ofKey k ∧ k.Finite

namespace Compile

theorem Made.legible {b : Block} {o : Outcome} (h : Made b Fits Names.Stems o) (hb : b.Scalar) :
    o.Legible := by
  have scalar {v : Value} {name : Key}
      (hv : v = .int 0 ∨ v = (Entries.get? b.fields name).getD .null) :
      (Expr.literal v).Legible := by
    obtain ⟨k, hk, hfinite⟩ := hb name
    rcases hv with rfl | rfl
    · exact .literal (Key.finite_int 0)
    · rw [hk]
      exact .literal hfinite
  cases h with
  | addText htext hcolour hname =>
      intro op hop
      obtain rfl := List.mem_singleton.mp hop
      refine .call hname fun e he => ?_
      rcases List.mem_pair.mp he with rfl | rfl
      · exact htext.1
      · exact hcolour.1
  | wait hv =>
      intro op hop
      obtain rfl := List.mem_singleton.mp hop
      exact .sleep (scalar hv)
  | text s => exact ⟨.literal (Key.finite_text s), .inl rfl⟩
  | textJoin hleft hright =>
      exact ⟨.concat hleft.1 hright.1 (hleft.2 rfl) (hright.2 rfl), .inr rfl⟩
  | colourPicker => exact ⟨scalar (.inr rfl), .inl rfl⟩
  | colourRgb hred hgreen hblue hname =>
      refine ⟨.call hname fun e he => ?_, .inl rfl⟩
      simp only [List.mem_cons, List.not_mem_nil, or_false] at he
      rcases he with rfl | rfl | rfl
      · exact hred.1
      · exact hgreen.1
      · exact hblue.1
  | mathNumber hv => exact ⟨scalar hv, .inl rfl⟩

/-- **The stock rules make what is legible**, of what is legible. -/
theorem yields_stockRules :
    ∀ e ∈ stockRules, e.2.Yields Draft.Neat Block.Scalar Fits Outcome.Legible := by
  intro e he site hscalar hplug
  have hadd := yields_ask (q := addTextRequest) List.mem_cons_self
  have hcolour := yields_ask (q := colourRgbRequest) (List.mem_cons_of_mem _ List.mem_cons_self)
  exact (yields_made hadd hcolour yields_require he hplug).mono fun o ho => ho.legible hscalar

end Compile

/-! ### Chronicles -/

/-- What is in the domain of a field is a scalar and no infinite number, nor none. -/
theorem Socket.exists_of_admits {s : Socket} {u : Value} (hs : s.isField = true) (h : s.Admits u) :
    ∃ k : Key, u = .ofKey k ∧ k.Finite := by
  obtain ⟨hnumber, hcolour, htext⟩ := h
  cases hk : s.kind with
  | input =>
      rw [isField, hk] at hs
      cases hs
  | number =>
      obtain ⟨n, rfl, hn⟩ := hnumber hk
      cases n with
      | int i => exact ⟨.int i, rfl, Key.finite_int i⟩
      | float x =>
          refine ⟨.float x, rfl, fun y hy => ?_⟩
          obtain rfl := Key.float.inj hy
          exact hn.finite
  | text =>
      obtain ⟨t, rfl⟩ := htext hk
      exact ⟨.text t, rfl, Key.finite_text t⟩
  | colour =>
      obtain ⟨t, rfl, -⟩ := hcolour hk
      exact ⟨.text t, rfl, Key.finite_text t⟩

/-- A value that names something is a scalar. -/
theorem Value.eq_ofKey_of_toKey {v : Value} {k : Key} (h : v.toKey = .ok k) : v = .ofKey k := by
  cases v with
  | list | dict => cases h
  | null | bool | int | float | text => cases h; rfl

theorem Value.ofKey_injective {j k : Key} (h : Value.ofKey j = .ofKey k) : j = k := by
  cases j <;> cases k <;> cases h <;> rfl

namespace Chronicle

variable {σ τ : Type} {a : Audience σ} {a' : Audience τ} {w w' : Workspace}

/-- **The fields of the blocks of a chronicle hold scalars**, and no infinite numbers. -/
theorem scalar (h : Chronicle a .stock w) (ha : a.Docile) {k : Key} {b : Block}
    (hb : w.find? k = some b) : b.Scalar := by
  obtain ⟨d, hd, hadmits⟩ := h.admits ha Vocabulary.declared_stock Vocabulary.bounded_stock
    Vocabulary.fitting_stock hb
  obtain ⟨d', hdressed⟩ := h.dressed ha hb
  obtain rfl := Except.ok.inj (hd.symm.trans hdressed.declared)
  intro name
  cases hfind : b.fields.find? (·.1 == name) with
  | none => exact ⟨.null, by rw [Entries.get?, hfind]; rfl, Key.finite_null⟩
  | some e =>
      -- the name is that of a field of the type
      have hmem := List.mem_map_of_mem (f := (·.1)) (List.mem_of_find?_eq_some hfind)
      rw [hdressed.keys] at hmem
      obtain ⟨e', he', hname⟩ := List.mem_map.mp hmem
      obtain ⟨s, hs, hdefault⟩ := List.mem_filterMap.mp he'
      obtain ⟨j, hj, rfl⟩ := Option.map_eq_some_iff.mp hdefault
      obtain ⟨u, hu, hadmitted⟩ := hadmits s hs j hj
      have hjn : (j == name) = true := by
        rw [show j = e.1 from hname]
        exact List.find?_some (p := fun x : Key × Value => x.1 == name) hfind
      have hsame : Entries.get? b.fields name = some u := by
        rw [← hu, Entries.get?, Entries.get?]
        congr 2
        funext e
        exact (BEq.congr_right hjn).symm
      obtain ⟨k, hk, hfinite⟩ := Socket.exists_of_admits (List.mem_filter.mp hs).2 hadmitted
      exact ⟨k, by rw [hsame]; exact hk, hfinite⟩

variable {words words' : List String} {p p' : Program}

/-- What a program of a chronicle is made of. -/
theorem exists_outcomes (h : Chronicle a .stock w) (ha : a.Docile)
    (hp : (Compiler.stock.reserve words).program w = .ok p) :
    (∀ f ∈ p.fragments, ∃ (k : Key) (b : Block) (o : Compile.Outcome), w.find? k = some b ∧
      o.Legible ∧ f = o.fragment b) ∧
      ∃ d : Draft, d.Neat ∧ p.definitions = d.definitions ∧ p.imports = d.imports :=
  Compile.exists_outcomes (t := Compiler.stock.reserve words) Compile.yields_stockRules
    (fun _ _ hb => h.scalar ha hb) (fun _ _ _ => Compile.fits_fallback)
    (fun _ _ _ _ => Compile.fits_grouped) (Compile.neat_start _) hp

/-- **The programs of a chronicle are legible.** -/
theorem legible (h : Chronicle a .stock w) (ha : a.Docile)
    (hp : (Compiler.stock.reserve words).program w = .ok p) : p.Legible := by
  obtain ⟨houtcomes, d, hneat, hdefinitions, himports⟩ := h.exists_outcomes ha hp
  refine ⟨fun op hop => ?_, hdefinitions ▸ hneat.definitions, himports ▸ hneat.imports⟩
  obtain ⟨f, hf, hop⟩ := Program.mem_ops.mp hop
  obtain ⟨-, b, o, -, ho, rfl⟩ := houtcomes f hf
  cases o with
  | value e order =>
      obtain rfl := List.mem_singleton.mp hop
      exact .expr ho.1
  | ops steps => exact ho op hop

/-- The fragments of a program are named for blocks of its workspace. -/
theorem exists_id (h : Chronicle a .stock w) (ha : a.Docile)
    (hp : (Compiler.stock.reserve words).program w = .ok p) {f : Fragment} (hf : f ∈ p.fragments) :
    ∃ b ∈ w.blocks, ∃ k : Key, b.id = .ofKey k ∧ f.block = .ofKey k := by
  obtain ⟨k, b, o, hb, -, rfl⟩ := (h.exists_outcomes ha hp).1 f hf
  obtain ⟨j, hj, -⟩ := h.filed ha k b hb
  have hid : b.id = .ofKey j := Value.eq_ofKey_of_toKey hj
  refine ⟨b, Workspace.mem_blocks hb, j, hid, ?_⟩
  cases o with
  | value | ops => exact hid

/-- So they are when they are prepared for highlighting. -/
theorem legible_instrument (h : Chronicle a .stock w) (ha : a.Docile)
    (hp : (Compiler.stock.reserve words).program w = .ok p) : p.instrument.Legible := by
  have hlegible := h.legible ha hp
  refine ⟨fun op hop => ?_, hlegible.definitions, hlegible.imports⟩
  rcases Program.mem_ops_instrument hop with hop | ⟨f, hf, hop⟩
  · exact hlegible.steps op hop
  · obtain ⟨-, -, k, -, hk⟩ := h.exists_id ha hp hf
    rw [hk] at hop
    rcases hop with rfl | rfl
    · exact .highlight k
    · exact .restore k

/-- **The text of a program determines its steps.**  Two programs of the stock vocabulary that are
shown with one text have the same steps, with the same calls, the same literals and the same
grouping, whatever names were reserved for them.  So it is when they are prepared for highlighting,
where two ids that are not numbers count as the same, as payloads are not shown. -/
theorem text_determines (ha : a.Docile) (ha' : a'.Docile) (h : Chronicle a .stock w)
    (h' : Chronicle a' .stock w') (hp : (Compiler.stock.reserve words).program w = .ok p)
    (hp' : (Compiler.stock.reserve words').program w' = .ok p') :
    ((∃ text, p.render = .ok text) ∧ (p.render = p'.render → p.ops = p'.ops)) ∧
      (∃ text, p.instrument.render = .ok text) ∧
        (p.instrument.render = p'.instrument.render →
          List.Forall₂ Op.Akin p.instrument.ops p'.instrument.ops ∧
            ((∀ b ∈ w.blocks, b.id.isNaN = false) → p.instrument.ops = p'.instrument.ops)) := by
  have htexts : Compile.Texts p.imports := Compiler.texts_imports rfl hp
  have hplain (op : Op) (hop : op ∈ p.ops) : op.Definite := by
    obtain ⟨f, hf, hop⟩ := Program.mem_ops.mp hop
    have hopplain := (Compiler.Plain.program (t := Compiler.stock.reserve words)
      Compiler.plain_stock hp).steps f hf op hop
    rintro k (rfl | rfl)
    · cases hopplain
    · cases hopplain
  refine ⟨⟨Program.exists_render htexts, fun he => ?_⟩,
    Program.exists_render (p := p.instrument) htexts, fun he => ?_⟩
  · obtain ⟨text, htext⟩ := Program.exists_render htexts
    exact Op.eq_of_akin ((h.legible ha hp).akin_ops (h'.legible ha' hp') htext (he ▸ htext)) hplain
  · obtain ⟨text, htext⟩ := Program.exists_render (p := p.instrument) htexts
    have hakin := (h.legible_instrument ha hp).akin_ops (h'.legible_instrument ha' hp') htext
      (he ▸ htext)
    refine ⟨hakin, fun hids => Op.eq_of_akin hakin fun op hop => ?_⟩
    rcases Program.mem_ops_instrument hop with hop | ⟨f, hf, hop⟩
    · exact hplain op hop
    · obtain ⟨b, hb, k, hid, hk⟩ := h.exists_id ha hp hf
      have hnan := hids b hb
      have hdefinite : k.Definite := fun n hn => by
        rw [hid, hn] at hnan
        cases hnan
      rw [hk] at hop
      intro j hj
      obtain rfl : k = j := by
        rcases hop with rfl | rfl
        · exact Value.ofKey_injective (Op.highlight.inj (hj.resolve_right nofun))
        · exact Value.ofKey_injective (Op.restore.inj (hj.resolve_left nofun))
      exact hdefinite

/-- A block that waits makes one step, whatever its id and its height. -/
theorem program_waitAt (x : String) (y : Binary64) :
    (Compiler.stock.reserve []).program ((Workspace.new .stock 0).insert x (waitAt x y)) = .ok
      { chains := [[{
          block := .text x
          type := .text "wait"
          ops := [.sleep (.literal (.int 1))] }]]
        imports := [Compile.sleepImport] } := by
  have hlone := Workspace.lone_insert .stock 0 x (.text "wait") Vocabulary.wait
    Vocabulary.wait.defaults [.float (.zero false), .float y]
  have hrule : Entries.get? (Compiler.stock.reserve []).rules (.text "wait") = some Compile.wait :=
    rfl
  exact (hlone.sole rfl).program rfl rfl hrule
    (d := { used := _, imports := [Compile.sleepImport] }) fun _ => rfl

/-- Two blocks that wait, with different ids and at different heights, make programs that are shown
with one text. -/
theorem text_determines_waits : ∃ (w w' : Workspace) (p p' : Program),
    Chronicle .journal .stock w ∧ Chronicle .journal .stock w' ∧
      (Compiler.stock.reserve []).program w = .ok p ∧
      (Compiler.stock.reserve []).program w' = .ok p' ∧
      p.fragments.map (·.block) ≠ p'.fragments.map (·.block) ∧
      p.render = p'.render ∧ p.ops = p'.ops := by
  have hnone (z : String) : (Workspace.new .stock 0).block? z = none := Table.find?_eq _ _
  have hnew : Chronicle .journal .stock (Workspace.new .stock 0) := .new 0
  have hup := hnew.insert (creates_waitAt rfl (hnone "up") (.zero false))
  have hdown := hnew.insert (creates_waitAt rfl (hnone "down") .one)
  have hp := program_waitAt "up" (.zero false)
  have hp' := program_waitAt "down" .one
  obtain ⟨⟨-, hops⟩, -⟩ :=
    text_determines Audience.docile_journal Audience.docile_journal hup hdown hp hp'
  exact ⟨_, _, _, _, hup, hdown, hp, hp', by simp [Program.fragments], rfl, hops rfl⟩

end Chronicle

end Blockwork
