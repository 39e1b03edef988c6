import Blockwork.Proofs.Fragments
import Blockwork.Proofs.Granting
import Blockwork.Proofs.Singles
import Blockwork.Proofs.Yielding

/-!
# What a program needs

The definitions and imports of a program are those that its blocks ask for
(`History.needed`).  Compiling a block asks for what the blocks that are plugged into it ask for, as
far as they are turned on, and for what its own rule does (`Compile.Collects`); the chains of a
workspace come to every block that is `Live`.
-/

namespace Blockwork

open Forest (Hangs Lineage)
open Relation (ReflTransGen)

/-! ### What blocks ask for -/

namespace Workspace

/-- Whether a block is plugged into another one, and turned on. -/
def Plugs (w : Workspace) (x y : String) : Prop :=
  ∃ name b, w.child? x (some name) = some y ∧ w.block? y = some b ∧ b.isEnabled = true

/-- Whether a block that is turned on is plugged in nowhere, or into a block of which this can be
said. -/
inductive Live (w : Workspace) : String → Prop where
  | chained {x : String} {b : Block} : w.block? x = some b → b.isEnabled = true →
      (∀ p name, w.child? p (some name) ≠ some x) → Live w x
  | plugged {p x : String} : Live w p → w.Plugs p x → Live w x

/-- Whether a block of a type is turned on. -/
def Uses (w : Workspace) (type : String) : Prop :=
  ∃ x b, w.block? x = some b ∧ b.type = .text type ∧ b.isEnabled = true

/-- Whether a block of a type is live. -/
def Reaches (w : Workspace) (type : String) : Prop :=
  ∃ x b, w.block? x = some b ∧ b.type = .text type ∧ w.Live x

end Workspace

namespace Compile

/-- The request of blocks that put out a text. -/
def addTextRequest : Request := ⟨"add_text", addTextLines, addTextRun⟩

/-- The request of blocks that make a colour. -/
def colourRgbRequest : Request := ⟨"colour_rgb", colourRgbLines, colourRgbRun⟩

/-- The requests that the stock rules make. -/
def stockRequests : List Request := [addTextRequest, colourRgbRequest]

/-- The import of blocks that wait. -/
def sleepImport : Value := .text "import asyncio"

/-- The types of the blocks that ask for something. -/
def asking : List String := ["add_text", "wait", "colour_rgb"]

/-- Whether a draft holds just what blocks of some types ask for. -/
structure Sums (reserved : List Key) (types : String → Prop) (d : Draft) : Prop where
  booked : ∃ grants, Booked reserved grants d ∧ (∀ p ∈ grants, p.1 ∈ stockRequests) ∧
    ∀ q ∈ stockRequests, (∃ p ∈ grants, p.1 = q) ↔ types q.wanted
  imports : (types "wait" ∧ d.imports = [sleepImport]) ∨ (¬ types "wait" ∧ d.imports = [])

/-- Whether a part of a compilation, if it has an answer, adds to a draft just what blocks of some
types ask for. -/
def Collects {α : Type} (reserved : List Key) (m : Drafting α) (types : String → Prop) : Prop :=
  ∀ d before, Sums reserved before d →
    Ends m d (fun _ d' => Sums reserved (fun type => before type ∨ types type) d') fun _ _ => True

variable {reserved : List Key} {d : Draft} {types types' : String → Prop} {α β : Type}

theorem wanted_mem_asking : ∀ q ∈ stockRequests, q.wanted ∈ asking := by
  simp [stockRequests, asking, addTextRequest, colourRgbRequest]

theorem wanted_ne_wait : ∀ q ∈ stockRequests, q.wanted ≠ "wait" := by
  simp [stockRequests, addTextRequest, colourRgbRequest]

/-- No two of the requests are for one name. -/
theorem eq_of_wanted {q q' : Request} (hq : q ∈ stockRequests) (hq' : q' ∈ stockRequests)
    (h : q.wanted = q'.wanted) : q = q' :=
  List.inj_on_of_nodup_map (f := Request.wanted) (by decide) hq hq' h

/-- A request for a definition leaves the imports as they are. -/
theorem imports_ask {q : Request} {d d' : Draft} {name : String} (h : q.ask d = .ok name d') :
    d'.imports = d.imports := by
  have hkept : Yields (fun d' => d'.imports = d.imports) (fun _ => True) q.ask :=
    Yields.define (fun _ _ _ _ => trivial) fun _ _ _ hd _ _ _ => ⟨trivial, hd⟩
  exact ((Ends.of_ok h).mp (hkept d rfl)).2

theorem Sums.congr (h : Sums reserved types d) (ht : ∀ type ∈ asking, types type ↔ types' type) :
    Sums reserved types' d where
  booked := by
    obtain ⟨grants, hbooked, hall, hiff⟩ := h.booked
    exact ⟨grants, hbooked, hall, fun q hq => (hiff q hq).trans (ht _ (wanted_mem_asking q hq))⟩
  imports := by
    rw [← ht "wait" (by decide)]
    exact h.imports

namespace Collects

theorem congr {m : Drafting α} (h : Collects reserved m types)
    (ht : ∀ type ∈ asking, types type ↔ types' type) : Collects reserved m types' :=
  fun d before hd => (h d before hd).mono (fun _ _ hs => hs.congr fun type htype =>
    or_congr_right (ht type htype)) fun _ _ he => he

theorem pure (a : α) : Collects reserved (pure a) fun _ => False :=
  fun _ _ hd => Ends.pure (hd.congr fun _ _ => (or_false _).symm.to_iff)

theorem throw (e : Error) : Collects reserved (throw e : Drafting α) types :=
  fun _ _ _ => Ends.throw trivial

theorem ofExcept (r : Except Error α) : Collects reserved (ofExcept r) fun _ => False := by
  cases r with
  | ok a => exact pure a
  | error e => exact throw e

theorem bind {m : Drafting α} {f : α → Drafting β} {T : String → Prop}
    (h : Collects reserved m types) (k : ∀ a, Collects reserved (f a) T) :
    Collects reserved (m >>= f) fun type => types type ∨ T type :=
  fun d before hd => Ends.bind ((h d before hd).mono (fun a d' hd' =>
    (k a d' _ hd').mono (fun _ _ hs => hs.congr fun _ _ => or_assoc) fun _ _ he => he)
      fun _ _ he => he)

/-- What a step that asks for nothing is followed by. -/
theorem bind_ofExcept {r : Except Error α} {f : α → Drafting β}
    (k : ∀ a, r = .ok a → Collects reserved (f a) types) :
    Collects reserved (Compile.ofExcept r >>= f) types := by
  cases r with
  | ok a => exact k a rfl
  | error e => exact throw e

theorem mapM {f : α → Drafting β} {T : α → String → Prop} {as : List α}
    (h : ∀ a ∈ as, Collects reserved (f a) (T a)) :
    Collects reserved (as.mapM f) fun type => ∃ a ∈ as, T a type := by
  induction as with
  | nil => exact (pure []).congr fun _ _ => by simp
  | cons a as ih =>
      rw [List.mapM_cons]
      refine Collects.congr (bind (h a List.mem_cons_self) fun b =>
        bind (ih fun a ha => h a (List.mem_cons_of_mem _ ha)) fun bs => pure (b :: bs)) ?_
      intro type _
      simp

/-- A request of the stock rules. -/
theorem ask {q : Request} (hq : q ∈ stockRequests) : Collects reserved q.ask (· = q.wanted) := by
  intro d before hd
  obtain ⟨grants, hbooked, hall, hiff⟩ := hd.booked
  obtain ⟨name, d', hask, hbooked'⟩ := hbooked.exists_ask q
  rw [Ends.of_ok hask]
  refine ⟨⟨_, hbooked', ?_, fun q' hq' => ?_⟩, ?_⟩
  · intro p hp
    rcases List.mem_append.mp hp with hp | hp
    · exact hall p hp
    · obtain rfl := List.mem_singleton.mp hp
      exact hq
  · have hsame : q'.wanted = q.wanted ↔ q = q' :=
      ⟨fun he => (eq_of_wanted hq' hq he).symm, fun he => by rw [he]⟩
    change _ ↔ before q'.wanted ∨ q'.wanted = q.wanted
    rw [hsame, ← hiff q' hq']
    simp [or_and_right, exists_or]
  · rw [imports_ask hask]
    have hwait : "wait" ≠ q.wanted := (wanted_ne_wait q hq).symm
    simpa only [hwait, or_false] using hd.imports

/-- The request for the import. -/
theorem require : Collects reserved (require sleepImport) (· = "wait") := by
  intro d before hd
  have hbooked : ∀ imports, ∃ grants, Booked reserved grants { d with imports } ∧
      (∀ p ∈ grants, p.1 ∈ stockRequests) ∧
      ∀ q ∈ stockRequests, (∃ p ∈ grants, p.1 = q) ↔ before q.wanted ∨ q.wanted = "wait" := by
    intro imports
    obtain ⟨grants, hbooked, hall, hiff⟩ := hd.booked
    exact ⟨grants, ⟨hbooked.used, hbooked.granted, hbooked.allotted⟩, hall, fun q hq => by
      rw [hiff q hq, or_iff_left (wanted_ne_wait q hq)]⟩
  refine Ends.modify ?_
  rcases hd.imports with ⟨-, himports⟩ | ⟨-, himports⟩
  · have hany : d.imports.any (·.alike sleepImport) = true := by
      rw [himports]
      decide
    rw [if_pos hany]
    exact ⟨hbooked d.imports, .inl ⟨.inr rfl, himports⟩⟩
  · rw [himports, List.any_nil, if_neg Bool.false_ne_true, List.nil_append]
    exact ⟨hbooked [sleepImport], .inl ⟨.inr rfl, rfl⟩⟩

end Collects

end Compile

/-! ### Blocks -/

namespace Workspace

open Compile

variable {w : Workspace} {t : Compiler} {reserved : List Key} {x y : String} {b : Block}
  {d : Declaration} {n : Nat}

/-- Whether a type asks for something, and is that of a block or of one that is plugged into it. -/
def Asked (w : Workspace) (x type : String) : Prop :=
  type ∈ asking ∧ ∃ y b, ReflTransGen w.Plugs x y ∧ w.block? y = some b ∧ b.type = .text type

/-- What is asked for below one socket of a block. -/
def AskedIn (w : Workspace) (x name type : String) : Prop :=
  ∃ y b, w.child? x (some name) = some y ∧ w.block? y = some b ∧ b.isEnabled = true ∧ w.Asked y type

/-- A block asks for what its own type does and what is asked for below its sockets. -/
theorem asked_iff (hb : w.block? x = some b) {type : String} : w.Asked x type ↔
    (type ∈ asking ∧ b.type = .text type) ∨ ∃ name, w.AskedIn x name type := by
  constructor
  · rintro ⟨hask, y, c, hxy, hc, htype⟩
    rcases hxy.cases_head with rfl | ⟨z, ⟨name, e, hz, he, hon⟩, hzy⟩
    · obtain rfl := Option.some.inj (hb.symm.trans hc)
      exact .inl ⟨hask, htype⟩
    · exact .inr ⟨name, z, e, hz, he, hon, hask, y, c, hzy, hc, htype⟩
  · rintro (⟨hask, htype⟩ | ⟨name, z, e, hz, he, hon, hask, y, c, hzy, hc, htype⟩)
    · exact ⟨hask, x, b, .refl, hb, htype⟩
    · exact ⟨hask, y, c, .head ⟨name, e, hz, he, hon⟩ hzy, hc, htype⟩

/-- Blocks are plugged only into the sockets that are declared. -/
theorem Stocked.mem_of_child? (hs : w.Stocked) (hb : w.block? x = some b) (hd : b.Stems .stock d)
    {name : String} (hc : w.child? x (some name) = some y) :
    ∃ s ∈ d.inputs, s.name = .text name := by
  obtain ⟨d', e, hd', -, s, hsock, -⟩ := hs.sound.suited _ _ _ ((hs.sound.linked ..).mp hc)
  obtain rfl := hs.eq_of_type? hb hd hd'
  have hmem := Vocabulary.mem_of_lookup hd.declared
  obtain ⟨_, hname, hs'⟩ := Declaration.input?_eq_some Vocabulary.worded_stock hmem hsock
  obtain ⟨hfind, hfield⟩ := Option.filter_eq_some_iff.mp hsock
  exact ⟨s, List.mem_filter.mpr ⟨List.mem_of_find?_eq_some hfind, hfield⟩, hs'.trans hname.symm⟩

section

variable (hs : w.Stocked) (ht : t.rules = stockRules)

include hs

/-- What is plugged into a socket asks for what is asked for below it. -/
theorem Stocked.collects_operand (hb : w.block? x = some b) (name : String) (order : Value)
    (ih : ∀ y c, w.block? y = some c → Collects reserved (outcome t w n c) (w.Asked y)) :
    Collects reserved (operand t w n b (.text name) order) (w.AskedIn x name) := by
  refine Collects.bind_ofExcept fun o ho => ?_
  rw [hs.sound.occupant_eq hb] at ho
  have hempty (hnone : ∀ y c, w.child? x (some name) = some y → w.block? y = some c →
      c.isEnabled = false) :
      Collects reserved (Compile.ofExcept (fallback w b (.text name))) (w.AskedIn x name) := by
    refine (Collects.ofExcept _).congr fun type _ => (iff_false_intro ?_).symm
    rintro ⟨y, c, hy, hc, hon, -⟩
    rw [hnone y c hy hc] at hon
    cases hon
  cases o with
  | none =>
      refine hempty fun y c hy hc => ?_
      rw [hy, Option.bind_some, hc] at ho
      simpa using ho
  | some c =>
      obtain ⟨hc, hon⟩ := Option.filter_eq_some_iff.mp (Except.ok.inj ho)
      obtain ⟨y, hy, hc⟩ := Option.bind_eq_some_iff.mp hc
      refine ((Collects.bind (ih y c hc) (T := fun _ => False) fun o => ?_)).congr ?_
      · cases o with
        | value e inner => exact Collects.ofExcept _
        | ops _ => exact Collects.throw _
      · intro type _
        rw [or_false]
        constructor
        · exact fun h => ⟨y, c, hy, hc, hon, h⟩
        · rintro ⟨z, e, hz, -, -, h⟩
          obtain rfl := Option.some.inj (hy.symm.trans hz)
          exact h

include ht

omit hs ht in
/-- What a block of the stock vocabulary asks for. -/
theorem Stocked.asked_iff (hs : w.Stocked) (hb : w.block? x = some b) (hd : b.Stems .stock d)
    {own : String} (hown : d.type = .text own) {names : List String}
    (hnames : d.inputs.map (·.name) = names.map .text) {type : String} (htype : type ∈ asking) :
    w.Asked x type ↔ type = own ∨ ∃ name ∈ names, w.AskedIn x name type := by
  have hty : b.type = .text type ↔ type = own := by
    rw [hd.type_eq, hown, Value.text.injEq, eq_comm]
  rw [Workspace.asked_iff hb, hty, and_iff_right htype]
  refine or_congr_right (exists_congr fun name => ⟨fun h => ⟨?_, h⟩, And.right⟩)
  obtain ⟨y, c, hy, -⟩ := h
  obtain ⟨s, hs, hname⟩ := hs.mem_of_child? hb hd hy
  have hmem : Value.text name ∈ names.map .text := hnames ▸ List.mem_map.mpr ⟨s, hs, hname⟩
  obtain ⟨name', hname', he⟩ := List.mem_map.mp hmem
  exact Value.text.inj he ▸ hname'

/-- **Compiling a block** asks for what the block and those that are plugged into it ask for. -/
theorem Stocked.collects_outcome (n : Nat) : ∀ x b, w.block? x = some b →
    Collects reserved (outcome t w n b) (w.Asked x) := by
  induction n with
  | zero => exact fun _ _ _ => Collects.throw _
  | succ n ih =>
      intro x b hb
      obtain ⟨d, hd⟩ := hs.stems x b hb
      have plug (name : String) (order : Value) :
          Collects reserved (operand t w n b (.text name) order) (w.AskedIn x name) :=
        hs.collects_operand hb name order ih
      have asks {own : String} (hown : d.type = .text own) (names : List String)
          (hnames : d.inputs.map (·.name) = names.map .text) {m : Drafting Outcome}
          {types : String → Prop} (hm : Collects reserved m types)
          (htypes : ∀ type ∈ asking, types type ↔
            type = own ∨ ∃ name ∈ names, w.AskedIn x name type) :
          Collects reserved m (w.Asked x) :=
        hm.congr fun type htype =>
          (htypes type htype).trans (hs.asked_iff hb hd hown hnames htype).symm
      have hmem := Vocabulary.mem_of_lookup hd.declared
      simp only [Vocabulary.stock, List.mem_cons, List.not_mem_nil, or_false] at hmem
      rcases hmem with rfl | rfl | rfl | rfl | rfl | rfl | rfl
      · rw [outcome_eq ht addText hd.type_eq rfl]
        refine asks rfl ["TEXT", "COLOR"] rfl (Collects.bind (plug "TEXT" _) fun text =>
          Collects.bind (plug "COLOR" _) fun colour =>
          Collects.bind (Collects.ask (q := addTextRequest) List.mem_cons_self) fun name =>
            Collects.pure _) ?_
        intro type _
        simp only [List.mem_cons, List.not_mem_nil, or_false, exists_eq_or_imp, exists_eq_left,
          addTextRequest]
        tauto
      · rw [outcome_eq ht wait hd.type_eq rfl]
        refine asks rfl [] rfl (Collects.bind Collects.require fun _ =>
          Collects.pure _) fun type _ => ?_
        simp
      · rw [outcome_eq ht text hd.type_eq rfl]
        refine asks rfl [] rfl (Collects.pure _) fun type htype => ?_
        have hne : type ≠ "text" := ne_of_mem_of_not_mem htype (by decide)
        simp [hne]
      · rw [outcome_eq ht textJoin hd.type_eq rfl]
        refine asks rfl ["A", "B"] rfl (Collects.bind (plug "A" _) fun left =>
          Collects.bind (plug "B" _) fun right => Collects.pure _) fun type htype => ?_
        have hne : type ≠ "text_join" := ne_of_mem_of_not_mem htype (by decide)
        simp [hne]
      · rw [outcome_eq ht colourPicker hd.type_eq rfl]
        refine asks rfl [] rfl (Collects.pure _) fun type htype => ?_
        have hne : type ≠ "colour_picker" := ne_of_mem_of_not_mem htype (by decide)
        simp [hne]
      · rw [outcome_eq ht colourRgb hd.type_eq rfl]
        refine asks rfl ["RED", "GREEN", "BLUE"] rfl (Collects.bind (plug "RED" _)
          fun red => Collects.bind (plug "GREEN" _) fun green =>
          Collects.bind (plug "BLUE" _) fun blue =>
          Collects.bind (Collects.ask (q := colourRgbRequest) (by simp [stockRequests])) fun name =>
            Collects.pure _) fun type _ => ?_
        simp only [List.mem_cons, List.not_mem_nil, or_false, exists_eq_or_imp, exists_eq_left,
          colourRgbRequest]
        tauto
      · rw [outcome_eq ht mathNumber hd.type_eq rfl]
        refine asks rfl [] rfl (Collects.bind_ofExcept fun _ _ => Collects.pure _)
          fun type htype => ?_
        have hne : type ≠ "math_number" := ne_of_mem_of_not_mem htype (by decide)
        simp [hne]

end

/-! ### Chains -/

/-- In the stock vocabulary a block that is plugged into another one has a value, and nothing
follows it. -/
theorem Stocked.not_plugged_of_next (hs : w.Stocked) {p y : String} (hy : w.next? p = some y)
    (q name : String) : w.child? q (some name) ≠ some p := by
  intro hp
  obtain ⟨d, e, hd, -, hnext, -⟩ := hs.sound.suited _ _ _ ((hs.sound.linked ..).mp hy)
  obtain ⟨d', e', -, he', s, -, hvalue, -⟩ := hs.sound.suited _ _ _ ((hs.sound.linked ..).mp hp)
  obtain rfl := Option.some.inj (hd.symm.trans he')
  obtain ⟨b, -, hb⟩ := type?_eq_some.mp hd
  rw [Workspace.declarationOf, hs.vocabulary] at hb
  have hall : ∀ d ∈ Vocabulary.stock.declarations, d.next = true → d.isValue = false := by
    decide +kernel
  rw [hall d (Vocabulary.mem_of_lookup hb) hnext] at hvalue
  cases hvalue

/-- A block that is plugged in nowhere is in the chain of a block at the top. -/
theorem Stocked.exists_head (hs : w.Stocked) (hy : (w.block? y).isSome)
    (hfree : ∀ p name, w.child? p (some name) ≠ some y) :
    ∃ x b, w.block? x = some b ∧ b.isTop = true ∧ Hangs w.next? x y := by
  obtain ⟨l, hl⟩ := hs.sound.rooted y
  induction hl with
  | @root y hroot =>
      obtain ⟨b, hb⟩ := Option.isSome_iff_exists.mp hy
      exact ⟨y, b, hb, (hs.sound.isTop_iff hb).mpr hroot, .refl⟩
  | @step y p l hp hl ih =>
      obtain ⟨s, hseat⟩ := above?_eq_some.mp hp
      have hchild := (hs.sound.linked p s y).mpr hseat
      cases s with
      | some name => exact absurd hchild (hfree p name)
      | none =>
          obtain ⟨x, b, hb, htop, hxp⟩ := ih (hs.sound.isSome_parent hseat)
            (hs.not_plugged_of_next hchild)
          exact ⟨x, b, hb, htop, hxp.tail hchild⟩

/-- A block in the chain of a block at the top is plugged in nowhere. -/
theorem Sound.not_plugged (h : w.Sound) (hx : w.above? x = none) (hxy : Hangs w.next? x y)
    (p name : String) : w.child? p (some name) ≠ some y := by
  intro hp
  have hseat := (h.linked p (some name) y).mp hp
  rcases hxy.cases_tail with rfl | ⟨z, -, hz⟩
  · rw [h.above?_of_child? hp] at hx
    cases hx
  · rw [(h.linked z none y).mp hz] at hseat
    cases hseat

/-- What is live is plugged, in some steps, into what is plugged in nowhere. -/
theorem Live.exists_chained (h : w.Live y) : ∃ x b, w.block? x = some b ∧ b.isEnabled = true ∧
    (∀ p name, w.child? p (some name) ≠ some x) ∧ ReflTransGen w.Plugs x y := by
  induction h with
  | @chained x b hb hon hfree => exact ⟨x, b, hb, hon, hfree, .refl⟩
  | plugged _ hp ih =>
      obtain ⟨x, b, hb, hon, hfree, hxp⟩ := ih
      exact ⟨x, b, hb, hon, hfree, hxp.tail hp⟩

theorem Live.of_plugs (h : w.Live x) (hxy : ReflTransGen w.Plugs x y) : w.Live y := by
  induction hxy with
  | refl => exact h
  | tail _ hp ih => exact ih.plugged hp

/-- What the blocks ask for in the chain of a block. -/
def AskedAlong (w : Workspace) (x type : String) : Prop :=
  ∃ y b, Hangs w.next? x y ∧ w.block? y = some b ∧ b.isEnabled = true ∧ w.Asked y type

/-- The chains of the blocks at the top come to what is live. -/
theorem Stocked.askedAlong_iff (hs : w.Stocked) {type : String} (htype : type ∈ asking) :
    (∃ x b, w.block? x = some b ∧ b.isTop = true ∧ w.AskedAlong x type) ↔ w.Reaches type := by
  constructor
  · rintro ⟨x, b, hb, htop, y, c, hxy, hc, hon, -, z, e, hyz, he, hetype⟩
    have hroot := (hs.sound.isTop_iff hb).mp htop
    exact ⟨z, e, he, hetype,
      (Live.chained hc hon (hs.sound.not_plugged hroot hxy)).of_plugs hyz⟩
  · rintro ⟨z, e, he, hetype, hlive⟩
    obtain ⟨y, c, hc, hon, hfree, hyz⟩ := hlive.exists_chained
    obtain ⟨x, b, hb, htop, hxy⟩ := hs.exists_head (by rw [hc]; rfl) hfree
    exact ⟨x, b, hb, htop, y, c, hxy, hc, hon, htype, z, e, hyz, he, hetype⟩

section

variable (hs : w.Stocked) (ht : t.rules = stockRules)

include hs ht

/-- The chain of a block asks for what the blocks in it ask for. -/
theorem Stocked.collects_chain (hb : w.block? x = some b) :
    Collects reserved (Compile.chain t w b) (w.AskedAlong x) := by
  obtain ⟨m, c, hm, hc, hall⟩ := hs.sound.exists_chain (x := x) (by rw [hb]; rfl)
  refine Collects.bind_ofExcept fun c' hc' => ?_
  obtain rfl : c = c' := by
    rw [hs.sound.id_eq hb] at hc'
    exact Except.ok.inj (hc.symm.trans hc')
  have hmem {e : Block} (he : e ∈ c.map (·.2)) : ∃ y ∈ m, w.block? y = some e := by
    obtain ⟨f, hf, rfl⟩ := List.mem_map.mp he
    obtain ⟨y, hy, -, hblock⟩ := exists_of_mem_forall₂ hall hf
    exact ⟨y, hy, hblock⟩
  refine (Collects.mapM (T := fun e type => ∃ y ∈ m, w.block? y = some e ∧ w.Asked y type)
    fun e he => ?_).congr fun type _ => ?_
  · obtain ⟨y, hy, hblock⟩ := hmem (List.mem_filter.mp he).1
    refine (Collects.bind (hs.collects_outcome ht nestingLimit y e hblock)
      (T := fun _ => False) fun o => ?_).congr fun type _ => ?_
    · cases o <;> exact Collects.pure _
    · rw [or_false]
      refine ⟨fun h => ⟨y, hy, hblock, h⟩, ?_⟩
      rintro ⟨z, -, hz, h⟩
      obtain rfl := Value.text.inj ((hs.sound.id_eq hz).symm.trans (hs.sound.id_eq hblock))
      exact h
  · constructor
    · rintro ⟨e, he, y, hy, hblock, h⟩
      exact ⟨y, e, hm.mem_iff.mp hy, hblock, (List.mem_filter.mp he).2, h⟩
    · rintro ⟨y, e, hxy, hblock, hon, h⟩
      have hy := hm.mem_iff.mpr hxy
      obtain ⟨f, hf, -, hfblock⟩ := exists_of_mem_forall₂ hall.flip hy
      obtain rfl := Option.some.inj (hblock.symm.trans hfblock)
      exact ⟨f.2, List.mem_filter.mpr ⟨List.mem_map.mpr ⟨f, hf, rfl⟩, hon⟩, y, hy, hblock, h⟩

/-- **Compiling a workspace** asks for what its live blocks ask for. -/
theorem Stocked.collects_chains : Collects reserved (chains t w) w.Reaches := by
  have hplaced : w.Placed := fun x b hb => by
    obtain ⟨d, hd⟩ := hs.stems x b hb
    exact hd.placed
  obtain ⟨tops, htops, hperm, -⟩ := hs.sound.exists_tops hplaced
  have hmem (b : Block) : b ∈ tops ↔ ∃ x, w.block? x = some b ∧ b.isTop = true := by
    rw [hperm.mem_iff, List.mem_filter]
    constructor
    · rintro ⟨hb, htop⟩
      obtain ⟨e, he, rfl⟩ := List.mem_map.mp hb
      obtain ⟨x, -, hx⟩ := hs.sound.key_text (find?_of_mem_entries he)
      exact ⟨x, hx, htop⟩
    · rintro ⟨x, hx, htop⟩
      exact ⟨List.mem_map.mpr ⟨_, mem_entries.mpr hx, rfl⟩, htop⟩
  unfold chains
  refine Collects.bind_ofExcept fun tops' htops' => ?_
  obtain rfl := Except.ok.inj (htops.symm.trans htops')
  refine (Collects.bind (T := fun _ => False) (Collects.mapM
    (T := fun b type => ∃ x, w.block? x = some b ∧ w.AskedAlong x type) fun b hb => ?_)
    fun fss => Collects.pure _).congr fun type htype => ?_
  · obtain ⟨x, hx, -⟩ := (hmem b).mp hb
    refine (hs.collects_chain ht hx).congr fun type _ => ⟨fun h => ⟨x, hx, h⟩, ?_⟩
    rintro ⟨y, hy, h⟩
    obtain rfl := Value.text.inj ((hs.sound.id_eq hy).symm.trans (hs.sound.id_eq hx))
    exact h
  · rw [or_false, ← hs.askedAlong_iff htype]
    constructor
    · rintro ⟨b, hb, x, hx, h⟩
      obtain ⟨y, hy, htop⟩ := (hmem b).mp hb
      exact ⟨x, b, hx, htop, h⟩
    · rintro ⟨x, b, hx, htop, h⟩
      exact ⟨b, (hmem b).mpr ⟨x, hx, htop⟩, x, hx, h⟩

end

end Workspace

/-! ### Histories -/

open Compile

namespace Workspace

variable {w : Workspace} {x : String} {b : Block}

theorem Live.isEnabled (h : w.Live x) (hb : w.block? x = some b) : b.isEnabled = true := by
  cases h with
  | chained hb' hon _ =>
      obtain rfl := Option.some.inj (hb.symm.trans hb')
      exact hon
  | plugged _ hp =>
      obtain ⟨_, c, -, hc, hon⟩ := hp
      obtain rfl := Option.some.inj (hb.symm.trans hc)
      exact hon

/-- In the stock vocabulary a block without a value is live just when it is turned on. -/
theorem Stocked.reaches_iff (hs : w.Stocked) {type : String}
    (htype : ∀ d ∈ Vocabulary.stock.declarations, d.type = .text type → d.isValue = false) :
    w.Reaches type ↔ w.Uses type := by
  constructor
  · rintro ⟨x, b, hb, hbt, hlive⟩
    exact ⟨x, b, hb, hbt, hlive.isEnabled hb⟩
  · rintro ⟨x, b, hb, hbt, hon⟩
    refine ⟨x, b, hb, hbt, .chained hb hon fun p name hp => ?_⟩
    obtain ⟨-, e, -, he, -, -, hvalue, -⟩ :=
      hs.sound.suited _ _ _ ((hs.sound.linked ..).mp hp)
    obtain ⟨d, hd⟩ := hs.stems x b hb
    obtain rfl := hs.eq_of_type? hb hd he
    rw [htype d (Vocabulary.mem_of_lookup hd.declared) (hd.type_eq.symm.trans hbt)] at hvalue
    cases hvalue

end Workspace

namespace Compile

theorem Sums.nil (reserved : List Key) : Sums reserved (fun _ => False) { used := reserved } where
  booked := ⟨[], .nil reserved, fun _ hp => absurd hp List.not_mem_nil, fun _ _ =>
    iff_of_false (fun ⟨_, hp, _⟩ => absurd hp List.not_mem_nil) id⟩
  imports := .inr ⟨id, rfl⟩

/-- Each request that was made has its one definition, and there are no others. -/
theorem Sums.exists_definitions {reserved : List Key} {types : String → Prop} {d : Draft}
    (h : Sums reserved types d) : (d.definitions.map (·.name)).Nodup ∧
      ∃ names : Request → String, ∀ s, s ∈ d.definitions ↔
        ∃ q ∈ stockRequests, s = q.answer (names q) ∧ types q.wanted := by
  obtain ⟨grants, hbooked, hall, hiff⟩ := h.booked
  have hname (q : Request) : ∃ name, ∀ p ∈ grants, p.1 = q → p.2 = name := by
    by_cases hq : ∃ p ∈ grants, p.1 = q
    · obtain ⟨p, hp, rfl⟩ := hq
      exact ⟨p.2, fun r hr he => (hbooked.allotted.same r hr p hp).mpr (by rw [he])⟩
    · exact ⟨"", fun p hp he => absurd ⟨p, hp, he⟩ hq⟩
  choose names hnames using hname
  refine ⟨hbooked.allotted.distinct, names, fun s => ?_⟩
  rw [hbooked.allotted.mem_iff]
  constructor
  · rintro ⟨before, p, hp, rfl⟩
    refine ⟨p.1, hall p hp.mem, ?_, (hiff _ (hall p hp.mem)).mp ⟨p, hp.mem, rfl⟩⟩
    rw [hnames p.1 p hp.mem rfl]
  · rintro ⟨q, hq, rfl, htypes⟩
    obtain ⟨p, hp, rfl⟩ := (hiff q hq).mpr htypes
    obtain ⟨before, r, hr, hwanted⟩ := Grants.exists_leads hp
    have he := eq_of_wanted (hall r hr.mem) hq hwanted
    exact ⟨before, r, hr, by rw [he, hnames p.1 r hr.mem he]⟩

end Compile

/-- **The definitions and imports of a program are those that are needed.**  One definition is that
of the lines that some block which is turned on puts out, the other one that of the colours that
some live block makes; none is there twice.  The import is there when some block that is turned on
waits. -/
theorem History.needed {σ : Type} {a : Audience σ} (ha : a.Tame) {w : Workspace}
    (h : History a .stock w) (words : List String) :
    ((∀ x, (w.block? x).isSome → w.Nests nestingLimit x) →
      ∃ p, (Compiler.stock.reserve words).program w = .ok p) ∧
    ∀ p, (Compiler.stock.reserve words).program w = .ok p →
      (∃ name name', ∀ s, s ∈ p.definitions ↔
        (s = addTextRequest.answer name ∧ w.Uses "add_text") ∨
          (s = colourRgbRequest.answer name' ∧ w.Reaches "colour_rgb")) ∧
      (p.definitions.map (·.name)).Nodup ∧
      ((w.Uses "wait" ∧ p.imports = [sleepImport]) ∨ (¬ w.Uses "wait" ∧ p.imports = [])) := by
  have hs := h.stocked ha
  let t := Compiler.stock.reserve words
  refine ⟨hs.isOk_program (t := t) rfl, fun p hp => ?_⟩
  have hadd : w.Reaches "add_text" ↔ w.Uses "add_text" := hs.reaches_iff (by decide +kernel)
  have hwait : w.Reaches "wait" ↔ w.Uses "wait" := hs.reaches_iff (by decide +kernel)
  have hsums := hs.collects_chains (t := t) rfl _ _ (Sums.nil t.reserved)
  obtain ⟨fss, d, hrun, rfl⟩ := Compile.exists_chains_of_program hp
  have hsum : Sums t.reserved w.Reaches d :=
    ((Ends.of_ok hrun).mp hsums).congr fun _ _ => by rw [false_or]
  obtain ⟨hnodup, names, hdefinitions⟩ := hsum.exists_definitions
  refine ⟨⟨names addTextRequest, names colourRgbRequest, fun s => ?_⟩, hnodup, ?_⟩
  · rw [hdefinitions, ← hadd]
    simp [stockRequests, addTextRequest, colourRgbRequest]
  · rw [← hwait]
    exact hsum.imports

/-- A single block that puts out a text needs the one definition and no import. -/
theorem History.needed_line : ∃ w, History .journal .stock w ∧ ∃ p,
    (Compiler.stock.reserve ["add_text"]).program w = .ok p ∧
      (∃ name, addTextRequest.answer name ∈ p.definitions) ∧ p.imports = [] := by
  obtain ⟨w, h, hlone⟩ := exists_line (x := "out") (by decide) (by decide)
  obtain ⟨hexists, hneeded⟩ := needed Audience.tame_journal h ["add_text"]
  obtain ⟨p, hp⟩ := hexists fun x _ => hlone.nests
  obtain ⟨⟨name, name', hdefinitions⟩, -, himports⟩ := hneeded p hp
  refine ⟨w, h, p, hp, ⟨name, (hdefinitions _).mpr (.inl ⟨rfl, ?_⟩)⟩, ?_⟩
  · exact ⟨"out", _, hlone.block?_self, rfl, rfl⟩
  · rcases himports with ⟨⟨x, b, hb, htype, -⟩, -⟩ | ⟨-, himports⟩
    · rw [hlone.eq_of_block? hb] at htype
      exact absurd (Value.text.inj htype) (by decide)
    · exact himports

end Blockwork
