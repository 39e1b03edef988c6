import Blockwork.Proofs.Contents
import Blockwork.Proofs.Drafting
import Blockwork.Proofs.Magnitudes
import Blockwork.Proofs.Reading

/-!
# Compiling the stock vocabulary

The expression that is made of a block evaluates to what the block means, whatever is added to the
program later (`Workspace.Stocked.computes_value`).  The induction is on how deeply values are
plugged into one another (`Workspace.Nests`), which is what bounds the compilation.
-/

namespace Blockwork

open Compile (Computes)

/-! ### Workspaces of the stock vocabulary -/

namespace Workspace

/-- A sound workspace of the stock vocabulary, whose blocks stem from their declarations. -/
structure Stocked (w : Workspace) : Prop where
  sound : w.Sound
  vocabulary : w.vocabulary = .stock
  stems : w.Holds fun b => ∃ d, b.Stems .stock d

end Workspace

theorem History.stocked {σ : Type} {a : Audience σ} (ha : a.Tame) {w : Workspace}
    (h : History a .stock w) : w.Stocked where
  sound := h.sound ha Vocabulary.worded_stock
  vocabulary := h.vocabulary ha Vocabulary.worded_stock
  stems := h.holds ha Vocabulary.worded_stock Vocabulary.worded_stock.persistent

theorem Vocabulary.typeName?_of_get {v : Vocabulary} {k : Key} {d : Declaration}
    (h : v.get k = .ok d) : d.typeName? = some k.name := by
  unfold get at h
  split at h
  · rename_i e he
    cases h
    exact of_decide_eq_true (List.find?_some he :)
  · cases h

theorem Vocabulary.exists_type {d : Declaration} (h : d ∈ Vocabulary.stock.declarations) :
    ∃ s, d.type = .text s := by
  simp only [stock, List.mem_cons, List.not_mem_nil, or_false] at h
  rcases h with rfl | rfl | rfl | rfl | rfl | rfl | rfl
  all_goals exact ⟨_, rfl⟩

theorem Block.Stems.type_eq {b : Block} {d : Declaration} (h : b.Stems .stock d) :
    b.type = d.type := by
  obtain ⟨s, hs⟩ := Vocabulary.exists_type (Vocabulary.mem_of_lookup h.declared)
  have hd := h.declared
  cases hk : b.type.toKey with
  | error e => rw [hk] at hd; cases hd
  | ok k =>
      rw [hk] at hd
      have hname := Vocabulary.typeName?_of_get hd
      rw [Declaration.typeName?, hs] at hname
      have hkey : k = .text s := by
        rw [← Key.beq_text_iff, Key.beq_iff_name]
        exact (Option.some.inj hname).symm
      subst hkey
      rw [hs]
      cases ht : b.type with
      | text s' => rw [ht] at hk; cases hk; rfl
      | null => rw [ht] at hk; cases hk
      | bool b => rw [ht] at hk; cases hk
      | int i => rw [ht] at hk; cases hk
      | float x => rw [ht] at hk; cases hk
      | list xs => rw [ht] at hk; cases hk
      | dict es => rw [ht] at hk; cases hk

/-! ### Evaluation -/

/-- Whether an expression has a value, and nothing is put out for it. -/
def Expr.Evaluates (definitions : List Subroutine) (e : Expr) (v : Value) : Prop :=
  ∀ lines, e.eval definitions lines = .ok v lines

namespace Expr

variable {definitions : List Subroutine} {e l r : Expr} {u v : Value}

theorem evaluates_literal (v : Value) : (literal v).Evaluates definitions v := fun lines => by
  rw [eval]
  rfl

theorem Evaluates.group (h : e.Evaluates definitions v) : (group e).Evaluates definitions v :=
  fun lines => by rw [eval, h lines]

theorem Evaluates.concat (hl : l.Evaluates definitions u) (hr : r.Evaluates definitions v) :
    (concat l r).Evaluates definitions (.text (u.display ++ v.display)) := fun lines => by
  rw [eval]
  simp only [bind, EStateM.bind, hl lines, hr lines]
  rfl

/-- Whether arguments have values. -/
def EvaluatesAll (definitions : List Subroutine) (es : List Expr) (vs : List Value) : Prop :=
  List.Forall₂ (Evaluates definitions) es vs

theorem EvaluatesAll.evalAll {es : List Expr} {vs : List Value}
    (h : EvaluatesAll definitions es vs) (lines : Array Line) :
    evalAll definitions es lines = .ok vs lines := by
  induction h with
  | nil =>
      rw [Expr.evalAll]
      rfl
  | cons hv _ ih =>
      rw [Expr.evalAll]
      simp only [bind, EStateM.bind, hv lines, ih]
      rfl

theorem eval_call {name : String} {s : Subroutine} {es : List Expr} {vs : List Value}
    (h : EvaluatesAll definitions es vs)
    (hs : definitions.find? (fun s => Key.text name == .text s.name) = some s)
    (lines : Array Line) : (call (.text name) es).eval definitions lines = s.run vs lines := by
  have hinvoke : invoke definitions (.text name) vs = s.run vs := by
    simp only [invoke, Value.key?, hs]
  rw [eval]
  simp only [bind, EStateM.bind, h.evalAll lines, hinvoke]

end Expr

/-! ### Sockets -/

namespace Compile

/-- The tags of the places that the stock rules plug values into. -/
def places : List Value := [Precedence.none, Precedence.atomic, Precedence.additive]

/-- The tags that the stock rules give to expressions. -/
def tags : List Value :=
  [Precedence.atomic, Precedence.additive, Precedence.functionCall, Precedence.unarySign]

/-- The expression in a socket of a block, with at most `n` levels of values plugged in. -/
def operand (t : Compiler) (w : Workspace) (n : Nat) (b : Block) (name : Key) (order : Value) :
    Drafting Expr := do
  match ← ofExcept (occupant w b name) with
  | none => ofExcept (fallback w b name)
  | some c => do
    match ← outcome t w n c with
    | .value e inner => ofExcept (grouped order e inner)
    | .ops _ => throw (.noRule c.type c.id)

/-- What the rule under a key makes of a block. -/
def ruled (t : Compiler) (b : Block) (plug : Key → Value → Drafting Expr) (k : Key) :
    Drafting Outcome :=
  match Entries.get? t.rules k with
  | none => throw (.noRule b.type b.id)
  | some rule => rule ⟨b, plug⟩

theorem outcome_succ (t : Compiler) (w : Workspace) (n : Nat) (b : Block) :
    outcome t w (n + 1) b = ofExcept b.type.toKey >>= ruled t b (operand t w n b) := rfl

theorem exists_grouped {outer inner : Value} (ho : outer ∈ places) (hi : inner ∈ tags) (e : Expr) :
    ∃ e', grouped outer e inner = .ok e' ∧ (e' = e ∨ e' = .group e) := by
  have hall : ∀ outer ∈ places, ∀ inner ∈ tags, (Precedence.needsGroup outer inner).isOk := by
    decide +kernel
  have hok := hall outer ho inner hi
  unfold grouped
  cases hg : Precedence.needsGroup outer inner with
  | error e => rw [hg] at hok; cases hok
  | ok g =>
      cases g with
      | true => exact ⟨_, rfl, .inr rfl⟩
      | false => exact ⟨_, rfl, .inl rfl⟩

end Compile

/-- The kinds of values that the sockets of the stock vocabulary take. -/
def Vocabulary.kinds : List String := ["String", "Colour", "Number"]

/-- In the stock vocabulary a socket for a kind of values takes blocks with values of that kind. -/
theorem Vocabulary.output_of_fits {e : Declaration} (he : e ∈ Vocabulary.stock.declarations)
    {s : Socket} {kind : String} (hk : kind ∈ kinds) (hs : s.check = some [.text kind])
    (hv : e.isValue = true) (hf : e.fits s = .ok true) : e.output = some [.text kind] := by
  have hcompat : Check.compatible? (some [.text kind]) e.output = some true := by
    unfold Declaration.fits at hf
    rw [hs] at hf
    split at hf
    · rename_i fits hfits
      rw [hfits, Except.ok.inj hf]
    · cases hf
  have hall : ∀ e ∈ Vocabulary.stock.declarations, ∀ kind ∈ kinds, e.isValue = true →
      Check.compatible? (some [.text kind]) e.output = some true →
        e.output = some [.text kind] := by
    decide +kernel
  exact hall e he kind hk hv hcompat

namespace Workspace

open Compile

/-- Whether a block is compiled to an expression for what it means. -/
def Speaks (t : Compiler) (w : Workspace) (n : Nat) (b : Block) (d : Declaration) : Prop :=
  ∃ v, w.Means b v ∧ (d.output = some [.text "Number"] → v.Numeric) ∧
    Computes (outcome t w n b) (fun o => ∃ e order, o = .value e order ∧ order ∈ tags)
      fun o definitions => ∀ e order, o = .value e order → e.Evaluates definitions v

/-- Whether every block with a value, with at most `n` levels, is compiled to what it means. -/
def Valued (t : Compiler) (w : Workspace) (n : Nat) : Prop :=
  ∀ x b d, w.Nests n x → w.block? x = some b → b.Stems .stock d → d.isValue = true →
    w.Speaks t n b d

variable {w : Workspace} {t : Compiler} {x : String} {b : Block} {d : Declaration} {n : Nat}

theorem Stocked.declarationOf (hs : w.Stocked) (hd : b.Stems .stock d) :
    w.declarationOf b = .ok d := by
  rw [Workspace.declarationOf, hs.vocabulary]
  exact hd.declared

theorem Stocked.eq_of_type? (hs : w.Stocked) (hb : w.block? x = some b) (hd : b.Stems .stock d)
    {d' : Declaration} (h : w.type? x = some d') : d = d' := by
  obtain ⟨c, hc, hdc⟩ := type?_eq_some.mp h
  obtain rfl := Option.some.inj (hb.symm.trans hc)
  exact Except.ok.inj ((hs.declarationOf hd).symm.trans hdc)

theorem exists_standIn {kind : String} (hk : kind ∈ Vocabulary.kinds) :
    ∃ v, standIn kind = some v ∧ fallbackAmong [.text kind] = .ok v ∧
      (kind = "Number" → v.Numeric) := by
  simp only [Vocabulary.kinds, List.mem_cons, List.not_mem_nil, or_false] at hk
  rcases hk with rfl | rfl | rfl
  · exact ⟨.text "", rfl, rfl, fun h => absurd h (by decide)⟩
  · exact ⟨.text "#ffffff", rfl, rfl, fun h => absurd h (by decide)⟩
  · exact ⟨.int 0, rfl, rfl, fun _ => Value.numeric_int (Nat.zero_le _)⟩

/-- What is in a socket, if it is turned on. -/
theorem Sound.occupant_eq (h : w.Sound) (hb : w.block? x = some b) (name : String) :
    occupant w b (.text name) =
      .ok (((w.child? x (some name)).bind w.block?).filter (·.isEnabled)) := by
  have hsh := h.shaped x b hb
  rw [child?, hb, Option.bind_some, occupant, hsh.get?_inputs]
  cases hx : b.child? (some name) with
  | none => rfl
  | some y =>
      have hchild : w.child? x (some name) = some y := child?_eq_some.mpr ⟨b, hb, hx⟩
      obtain ⟨c, hc⟩ := Option.isSome_iff_exists.mp (h.isSome_child hchild)
      have hne : y ≠ "" := h.ne_empty hc
      change (if (Value.text y).isTruthy then _ else _) = _
      rw [if_pos (by simpa [Value.isTruthy] using hne)]
      rfl

section

variable (hs : w.Stocked) (hb : w.block? x = some b) (hd : b.Stems .stock d) (name kind : String)
  (hsock : d.input? (.text name) = some (Vocabulary.inputOf name kind))
  (hkind : kind ∈ Vocabulary.kinds)

include hs hd hsock hkind

/-- What stands in for a value is the literal that is put in its place. -/
theorem Stocked.exists_fallback : ∃ v, w.StandsIn b name v ∧
    fallback w b (.text name) = .ok (.literal v) ∧ (kind = "Number" → v.Numeric) := by
  obtain ⟨v, hstand, hamong, hnum⟩ := exists_standIn hkind
  refine ⟨v, ⟨d, _, kind, hs.declarationOf hd, hsock, rfl, hstand⟩, ?_, hnum⟩
  have hsocket : d.socket? (.text name) = some (Vocabulary.inputOf name kind) :=
    (Option.filter_eq_some_iff.mp hsock).1
  rw [fallback, hs.declarationOf hd]
  change (do return Expr.literal (← fallbackAmong
    (((d.socket? (.text name)).bind (·.check)).getD []))) = _
  rw [hsocket, Option.bind_some]
  change (do return Expr.literal (← fallbackAmong [.text kind])) = _
  rw [hamong]
  rfl

include hb in
/-- What is plugged into a block gives values of the kind that the socket is for. -/
theorem Stocked.exists_output {y : String} {c : Block} (hchild : w.child? x (some name) = some y)
    (hc : w.block? y = some c) : ∃ e, c.Stems .stock e ∧ e.isValue = true ∧
      e.output = some [.text kind] := by
  obtain ⟨e, hce⟩ := hs.stems y c hc
  obtain ⟨d', e', hd', he', s, hs', hv, hf⟩ :=
    hs.sound.suited _ _ _ ((hs.sound.linked ..).mp hchild)
  obtain rfl := hs.eq_of_type? hb hd hd'
  obtain rfl := hs.eq_of_type? hc hce he'
  obtain rfl := Option.some.inj (hsock.symm.trans hs')
  exact ⟨e, hce, hv,
    Vocabulary.output_of_fits (Vocabulary.mem_of_lookup hce.declared) hkind rfl hv hf⟩

include hb

/-- What is plugged into a block is compiled to an expression for what fills the socket. -/
theorem Stocked.computes_operand (hval : w.Valued t n) (hn : w.Nests (n + 1) x)
    (order : Value) (ho : order ∈ places) :
    ∃ v, w.Fills b name v ∧ (kind = "Number" → v.Numeric) ∧
      Computes (operand t w n b (.text name) order) (fun _ => True)
        fun e definitions => e.Evaluates definitions v := by
  have hocc := hs.sound.occupant_eq hb name
  obtain ⟨u, hstand, hfall, hnum⟩ := hs.exists_fallback hd name kind hsock hkind
  -- an empty socket, and one whose block is turned off, are filled by what stands in
  have fallsBack (hocc : occupant w b (.text name) = .ok none) :
      Computes (operand t w n b (.text name) order) (fun _ => True)
        fun e definitions => e.Evaluates definitions u := by
    refine Computes.bind_ofExcept hocc ?_
    exact Computes.ofExcept hfall trivial fun _ => Expr.evaluates_literal u
  cases hx : b.child? (some name) with
  | none =>
      rw [child?, hb, Option.bind_some, hx] at hocc
      exact ⟨u, .empty hx hstand, hnum, fallsBack hocc⟩
  | some y =>
      have hchild : w.child? x (some name) = some y := child?_eq_some.mpr ⟨b, hb, hx⟩
      obtain ⟨c, hc⟩ := Option.isSome_iff_exists.mp (hs.sound.isSome_child hchild)
      rw [hchild, Option.bind_some, hc] at hocc
      cases he : c.isEnabled with
      | false =>
          rw [Option.filter_some, if_neg (by rw [he]; exact Bool.false_ne_true)] at hocc
          exact ⟨u, .off hx hc he hstand, hnum, fallsBack hocc⟩
      | true =>
          rw [Option.filter_some, if_pos he] at hocc
          obtain ⟨e, hce, hv, hout⟩ := hs.exists_output hb hd name kind hsock hkind hchild hc
          obtain ⟨v, hm, hvnum, hcomp⟩ := hval y c e (hn name y hchild) hc hce hv
          refine ⟨v, .plugged hx hc he hm, fun hk => hvnum (by rw [hout, hk]), ?_⟩
          refine Computes.bind_ofExcept hocc (Computes.bind hcomp fun o ho' => ?_)
          obtain ⟨ex, inner, rfl, hinner⟩ := ho'
          obtain ⟨ex', hgroup, hex⟩ := exists_grouped ho hinner ex
          refine Computes.ofExcept hgroup trivial fun definitions hev => ?_
          rcases hex with rfl | rfl
          · exact hev ex' inner rfl
          · exact (hev ex inner rfl).group

end

/-! ### Blocks with values -/

end Workspace

/-- A block of a type with one field holds the default of it, or a value that was coerced. -/
theorem Block.Stems.exists_field {v : Vocabulary} {b : Block} {d : Declaration} {s : Socket}
    {f : String} (h : b.Stems v d) (hone : d.fields = [s]) (hname : s.name = .text f) :
    ∃ u, Entries.get? b.fields f = some u ∧ (u = s.default ∨ ∃ u', s.coerce u' = .ok u) := by
  have hdefaults : d.defaults = [(.text f, s.default)] := by
    simp only [Declaration.defaults, hone, List.filterMap_cons, hname, Value.key?, Option.map_some,
      List.filterMap_nil]
  have hkeys := h.fills.keys
  rw [hdefaults, List.map_singleton] at hkeys
  obtain ⟨e, hfields, hk⟩ := List.map_eq_singleton_iff.mp hkeys
  obtain ⟨k, u⟩ := e
  obtain rfl : k = .text f := hk
  refine ⟨u, ?_, ?_⟩
  · rw [hfields]
    simp [Entries.get?]
  · obtain ⟨s', hs', -, hu⟩ := h.fills.values (.text f) u (by rw [hfields]; exact List.mem_cons_self)
    rw [hone] at hs'
    exact List.mem_singleton.mp hs' ▸ hu

/-! ### Channels -/

theorem Value.Numeric.exists_channel {v : Value} (h : v.Numeric) :
    ∃ i, Workspace.Rounds v i ∧ Compile.channel v = .ok i := by
  obtain ⟨x, hx, hf⟩ := h.read
  obtain ⟨i, hi⟩ := Binary64.exists_nearest? hf
  refine ⟨i, ⟨x, hx, hi⟩, ?_⟩
  rw [Compile.channel, hx]
  change Number.wholeBy Binary64.nearest? (.float x) = .ok i
  simp only [Number.wholeBy, hi]

theorem Compile.colourRgbRun_eq {r g b : Value} {i j k : Int} (hr : channel r = .ok i)
    (hg : channel g = .ok j) (hb : channel b = .ok k) (lines : Array Line) :
    colourRgbRun [r, g, b] lines = .ok (.text (Rgb.ofInts i j k).hex) lines := by
  rw [colourRgbRun, hr, hg, hb]
  rfl

/-! ### What rules make of blocks -/

namespace Workspace

open Compile

variable {w : Workspace} {t : Compiler} {x : String} {b : Block} {d : Declaration} {n : Nat}

/-- What a block is compiled to is what the rule for its type makes of it. -/
theorem outcome_eq (ht : t.rules = stockRules) {type : String} (rule : Rule)
    (hb : b.type = .text type) (hr : Entries.get? stockRules type = some rule) :
    outcome t w (n + 1) b = rule ⟨b, operand t w n b⟩ := by
  have hkey : ofExcept b.type.toKey = (pure (.text type) : Drafting Key) := by
    rw [hb]
    rfl
  rw [outcome, hkey, ht, pure_bind, hr]
  rfl

theorem speaks_pure {e : Expr} {v : Value} (order : Value) (hm : w.Means b v)
    (hnum : d.output = some [.text "Number"] → v.Numeric)
    (ho : outcome t w n b = pure (.value e order)) (htag : order ∈ tags)
    (he : ∀ definitions, e.Evaluates definitions v) : w.Speaks t n b d := by
  refine ⟨v, hm, hnum, ?_⟩
  rw [ho]
  refine Computes.pure ⟨e, order, rfl, htag⟩ fun definitions e' order' h => ?_
  cases h
  exact he definitions

variable (hs : w.Stocked) (ht : t.rules = stockRules)

include ht

theorem speaks_text (hd : b.Stems .stock Vocabulary.text) :
    w.Speaks t (n + 1) b Vocabulary.text := by
  obtain ⟨u, hu, hcoerced⟩ := hd.exists_field (f := "TEXT") rfl rfl
  obtain ⟨s, rfl⟩ : ∃ s, u = .text s := by
    rcases hcoerced with rfl | ⟨u', hu'⟩
    · exact ⟨_, rfl⟩
    · exact ⟨_, (Except.ok.inj hu').symm⟩
  refine speaks_pure Precedence.atomic (.field (by decide) hd.type_eq hu) (fun h => absurd h (by decide))
    (outcome_eq ht _ hd.type_eq rfl) (by decide) fun definitions => ?_
  have hfield : Site.field ⟨b, operand t w n b⟩ "TEXT" = .text s := by rw [Site.field, hu]; rfl
  have htext : (if (Value.text s).isTruthy then (Value.text s).display else "") = s := by
    by_cases he : s = ""
    · rw [he]
      rfl
    · rw [if_pos (by simpa [Value.isTruthy] using he)]
      rfl
  rw [hfield, htext]
  exact Expr.evaluates_literal _

theorem speaks_colourPicker (hd : b.Stems .stock Vocabulary.colourPicker) :
    w.Speaks t (n + 1) b Vocabulary.colourPicker := by
  obtain ⟨u, hu, -⟩ := hd.exists_field (f := "COLOUR") rfl rfl
  refine speaks_pure Precedence.atomic (.field (by decide) hd.type_eq hu) (fun h => absurd h (by decide))
    (outcome_eq ht _ hd.type_eq rfl) (by decide) fun definitions => ?_
  have hfield : Site.field ⟨b, operand t w n b⟩ "COLOUR" = u := by rw [Site.field, hu]; rfl
  rw [hfield]
  exact Expr.evaluates_literal _

theorem speaks_mathNumber (hd : b.Stems .stock Vocabulary.mathNumber) :
    w.Speaks t (n + 1) b Vocabulary.mathNumber := by
  obtain ⟨u, hu, hcoerced⟩ := hd.exists_field (f := "NUM") rfl rfl
  have hnum : u.Numeric := by
    rcases hcoerced with rfl | ⟨u', hu'⟩
    · exact Value.numeric_int (Nat.zero_le _)
    · exact Socket.numeric_of_coerce_plain rfl rfl rfl rfl hu'
  obtain ⟨k, hk⟩ := hnum.number
  have hfield : Site.field ⟨b, operand t w n b⟩ "NUM" = u := by rw [Site.field, hu]; rfl
  have hsame : (if u.isTruthy then u else .int 0) = u := by
    cases hz : u.isTruthy with
    | true => rfl
    | false => exact (hnum.zero hz).symm
  refine speaks_pure (e := .literal u)
    (if (Number.int 0).le k then Precedence.atomic else Precedence.unarySign)
    (.field (by decide) hd.type_eq hu) (fun _ => hnum) ?_ ?_ fun definitions => ?_
  · rw [outcome_eq ht mathNumber hd.type_eq rfl, mathNumber]
    rw [hfield, hsame, Value.toNumber, hk]
    rfl
  · split <;> decide
  · exact Expr.evaluates_literal u

include hs

theorem speaks_textJoin (hval : w.Valued t n) (hn : w.Nests (n + 1) x) (hb : w.block? x = some b)
    (hd : b.Stems .stock Vocabulary.textJoin) : w.Speaks t (n + 1) b Vocabulary.textJoin := by
  obtain ⟨l, hl, -, hleft⟩ := hs.computes_operand hb hd "A" "String" rfl (by decide) hval hn
    Precedence.additive (by decide)
  obtain ⟨r, hr, -, hright⟩ := hs.computes_operand hb hd "B" "String" rfl (by decide) hval hn
    Precedence.additive (by decide)
  refine ⟨_, .join hd.type_eq hl hr, fun h => absurd h (by decide), ?_⟩
  rw [outcome_eq ht textJoin hd.type_eq rfl]
  unfold textJoin
  refine Computes.bind hleft fun left _ => Computes.bind hright fun right _ => ?_
  refine Computes.pure ⟨_, _, rfl, by decide⟩ fun definitions he he' e order h => ?_
  cases h
  exact he'.concat he

theorem speaks_colourRgb (hval : w.Valued t n) (hn : w.Nests (n + 1) x) (hb : w.block? x = some b)
    (hd : b.Stems .stock Vocabulary.colourRgb) : w.Speaks t (n + 1) b Vocabulary.colourRgb := by
  obtain ⟨r, hr, hrnum, hred⟩ := hs.computes_operand hb hd "RED" "Number" rfl (by decide) hval hn
    Precedence.none (by decide)
  obtain ⟨g, hg, hgnum, hgreen⟩ := hs.computes_operand hb hd "GREEN" "Number" rfl (by decide) hval
    hn Precedence.none (by decide)
  obtain ⟨u, hu, hunum, hblue⟩ := hs.computes_operand hb hd "BLUE" "Number" rfl (by decide) hval hn
    Precedence.none (by decide)
  obtain ⟨i, hi, hri⟩ := (hrnum rfl).exists_channel
  obtain ⟨j, hj, hgj⟩ := (hgnum rfl).exists_channel
  obtain ⟨k, hk, huk⟩ := (hunum rfl).exists_channel
  refine ⟨_, .rgb hd.type_eq hr hg hu hi hj hk, fun h => absurd h (by decide), ?_⟩
  rw [outcome_eq ht colourRgb hd.type_eq rfl]
  unfold colourRgb
  refine Computes.bind hred fun red _ => Computes.bind hgreen fun green _ =>
    Computes.bind hblue fun blue _ => Computes.bind (Computes.define "colour_rgb")
      fun name _ => ?_
  refine Computes.pure ⟨_, _, rfl, by simp [tags]⟩ fun definitions hname hb hg hr e order h => ?_
  cases h
  obtain ⟨s, hs, hrun⟩ := hname
  intro lines
  rw [Expr.eval_call (.cons hr (.cons hg (.cons hb .nil))) hs, hrun]
  exact colourRgbRun_eq hri hgj huk lines

theorem valued_succ (hval : w.Valued t n) : w.Valued t (n + 1) := by
  intro x b d hn hb hd hv
  have hmem := Vocabulary.mem_of_lookup hd.declared
  simp only [Vocabulary.stock, List.mem_cons, List.not_mem_nil, or_false] at hmem
  rcases hmem with rfl | rfl | rfl | rfl | rfl | rfl | rfl
  · cases hv
  · cases hv
  · exact speaks_text ht hd
  · exact speaks_textJoin hs ht hval hn hb hd
  · exact speaks_colourPicker ht hd
  · exact speaks_colourRgb hs ht hval hn hb hd
  · exact speaks_mathNumber ht hd

/-- **What a block with a value is compiled to has the value of the block.** -/
theorem Stocked.valued (n : Nat) : w.Valued t n := by
  induction n with
  | zero => exact fun _ _ _ hn => hn.elim
  | succ n ih => exact valued_succ hs ht ih

end Workspace

end Blockwork
