import Blockwork.Proofs.Running
import Blockwork.Proofs.Yielding

/-!
# Types of what programs do

The programs of the stock vocabulary put out texts in colours and wait for whole seconds
(`Workspace.Stocked.typed_reads`), as fields hold only what belongs into them and sockets take only
the blocks that fit.  That an expression has a value means that all calls in it are of definitions
that are there (`Expr.bound_of_eval`), and what is imported is a text (`Compiler.texts_imports`), so
that the program can be shown.
-/

namespace Blockwork

/-! ### Colours and seconds -/

/-- Whether a text is a colour in written form: a number sign and six hexadecimal digits in lower
case. -/
def Rgb.IsHex (s : String) : Prop :=
  ∃ ds : List Char, s.toList = '#' :: ds ∧ ds.length = 6 ∧ ∀ c ∈ ds, c ∈ "0123456789abcdef".toList

theorem Rgb.mem_hexDigits (c : Fin 256) : ∀ d ∈ hexDigits c, d ∈ "0123456789abcdef".toList := by
  have hall : ∀ n : Fin 16, Nat.digitChar n ∈ "0123456789abcdef".toList := by decide
  intro d hd
  simp only [hexDigits, List.mem_cons, List.not_mem_nil, or_false] at hd
  rcases hd with rfl | rfl
  · exact hall ⟨c / 16, by omega⟩
  · exact hall ⟨c % 16, by omega⟩

theorem Rgb.isHex_hex (c : Rgb) : IsHex c.hex := by
  refine ⟨hexDigits c.red ++ hexDigits c.green ++ hexDigits c.blue, ?_, rfl, fun d hd => ?_⟩
  · rw [hex, String.toList_ofList]
    rfl
  · rcases List.mem_append.mp hd with hd | hd
    · rcases List.mem_append.mp hd with hd | hd
      · exact mem_hexDigits _ d hd
      · exact mem_hexDigits _ d hd
    · exact mem_hexDigits _ d hd

namespace Binary64

/-- Whether a number is a whole one, and not less than zero. -/
def IsWhole (x : Binary64) : Prop := ∃ n : Nat, x.toInt? = some n

theorem isWhole_finite {m : Nat} {e : Int} {h : Fits m e} (hd : 2 ^ (-e).toNat ∣ m) :
    (finite false m e h).IsWhole := by
  have hdvd : denominator e ∣ m <<< e.toNat := by
    rw [denominator, Nat.one_shiftLeft, Nat.shiftLeft_eq]
    exact hd.mul_right _
  refine ⟨m <<< e.toNat / denominator e, ?_⟩
  have hmod : (numerator false m e) % (denominator e : Int) = 0 := by
    change ((m <<< e.toNat : Nat) : Int) % (denominator e : Int) = 0
    exact_mod_cast Nat.mod_eq_zero_of_dvd hdvd
  simp only [toInt?, fraction?]
  rw [if_pos hmod]
  rfl

theorem isWhole_pack {m : Nat} {e : Int} {le least full} (hd : 2 ^ (-e).toNat ∣ m) :
    pack false m e le least full = .infinite false ∨ (pack false m e le least full).IsWhole := by
  unfold pack
  split
  · rename_i hm
    split
    · refine .inr (isWhole_finite ?_)
      have hpow : (0x20000000000000 : Nat) = 2 ^ 53 := rfl
      rw [hm, hpow] at hd
      have hle : (-e).toNat ≤ 53 := (Nat.pow_dvd_pow_iff_le_right (by decide)).mp hd
      exact Nat.pow_dvd_pow (n := 52) 2 (by omega)
    · exact .inl rfl
  · split
    · exact .inr (isWhole_finite hd)
    · exact .inl rfl

/-- Where no more bits are cut off than there are zeros at the end, all others are kept. -/
theorem shiftRight_of_le (num : Nat) {k x : Nat} (hx : x ≤ k) :
    (num * 2 ^ k) % 2 ^ x = 0 ∧ (num * 2 ^ k) >>> x = num * 2 ^ (k - x) := by
  have hpow : 2 ^ k = 2 ^ (k - x) * 2 ^ x := by rw [← Nat.pow_add, Nat.sub_add_cancel hx]
  rw [Nat.shiftRight_eq_div_pow, hpow, ← Nat.mul_assoc]
  exact ⟨Nat.mul_mod_left _ _, Nat.mul_div_cancel _ (Nat.two_pow_pos x)⟩

/-- Of a whole number only zeros are cut off, or there is nothing behind the point any more. -/
theorem isWhole_round (num : Nat) :
    round false num 1 = .infinite false ∨ (round false num 1).IsWhole := by
  have hn (k : Nat) : num <<< k / 1 = num * 2 ^ k := by rw [Nat.div_one, Nat.shiftLeft_eq]
  unfold round
  refine isWhole_pack ?_
  rw [hn]
  -- the bits that are cut off are the zeros that scaling added, or the exponent is not negative
  by_cases hle : excess (num * 2 ^ 1075) ≤ 1075
  · obtain ⟨hmod, hshift⟩ := shiftRight_of_le num hle
    have hexp : (-((excess (num * 2 ^ 1075) : Int) - 1075)).toNat =
        1075 - excess (num * 2 ^ 1075) := by omega
    rw [roundsUp_of_mod_eq_zero hmod, hexp, hshift, Bool.toNat_false, Nat.add_zero]
    exact Nat.dvd_mul_left _ _
  · have hexp : (-((excess (num * 2 ^ 1075) : Int) - 1075)).toNat = 0 := by omega
    rw [hexp, Nat.pow_zero]
    exact Nat.one_dvd _

/-- The number nearest to a whole number that is not less than zero is whole. -/
theorem isWhole_of_ofInt? {i : Int} (hi : 0 ≤ i) {x : Binary64} (h : ofInt? i = some x) :
    x.IsWhole := by
  have hfraction : ofFraction false i 1 = .infinite false ∨ (ofFraction false i 1).IsWhole := by
    unfold ofFraction
    split
    · exact .inr (isWhole_finite (Nat.dvd_zero _))
    · rw [decide_eq_false (Int.not_lt.mpr hi)]
      exact isWhole_round _
  unfold ofInt? at h
  rcases hfraction with hinf | hwhole
  · rw [hinf] at h
    cases h
  · split at h
    · cases h
    · exact Option.some.inj h ▸ hwhole

end Binary64

/-! ### Calls -/

namespace Expr

variable (definitions : List Subroutine)

mutual

/-- Whether all calls in an expression are of definitions that are there. -/
def Bound : Expr → Prop
  | .literal _ => True
  | .concat l r => l.Bound ∧ r.Bound
  | .call name args => (∃ d ∈ definitions, name = .text d.name) ∧ BoundAll args
  | .group e => e.Bound

/-- Whether all calls in arguments are of definitions that are there. -/
def BoundAll : List Expr → Prop
  | [] => True
  | e :: es => e.Bound ∧ BoundAll es

end

variable {definitions} {lines lines' : Array Line}

/-- What is called with success is there. -/
theorem exists_of_invoke {name v : Value} {values : List Value}
    (h : invoke definitions name values lines = .ok v lines') :
    ∃ d ∈ definitions, name = .text d.name := by
  unfold invoke at h
  cases hk : name.key? with
  | none =>
      rw [hk] at h
      cases h
  | some k =>
      rw [hk] at h
      dsimp only at h
      cases hd : definitions.find? (k == .text ·.name) with
      | none =>
          rw [hd] at h
          cases h
      | some d =>
          obtain rfl := Key.beq_text_iff.mp (List.find?_some hd :)
          refine ⟨d, List.mem_of_find?_eq_some hd, ?_⟩
          cases name <;> cases hk
          rfl

/-- What is evaluated with success in two steps is so in each of them. -/
theorem exists_of_bind {α β : Type} {x : Emit α} {f : α → Emit β} {b : β}
    (h : (x >>= f) lines = .ok b lines') :
    ∃ a between, x lines = .ok a between ∧ f a between = .ok b lines' := by
  simp only [bind, EStateM.bind] at h
  cases hx : x lines with
  | ok a between =>
      rw [hx] at h
      exact ⟨a, between, rfl, h⟩
  | error e between =>
      rw [hx] at h
      cases h

mutual

/-- **An expression that has a value calls only what is there**: all of it is evaluated. -/
theorem bound_of_eval : ∀ {e : Expr} {v : Value} {lines lines' : Array Line},
    e.eval definitions lines = .ok v lines' → e.Bound definitions
  | .literal _, _, _, _, _ => by
    rw [Bound]
    trivial
  | .concat l r, _, _, _, h => by
    rw [eval] at h
    obtain ⟨_, _, hl, h⟩ := exists_of_bind h
    obtain ⟨_, _, hr, -⟩ := exists_of_bind h
    rw [Bound]
    exact ⟨bound_of_eval hl, bound_of_eval hr⟩
  | .call name args, _, _, _, h => by
    rw [eval] at h
    obtain ⟨_, _, hargs, h⟩ := exists_of_bind h
    rw [Bound]
    exact ⟨exists_of_invoke h, boundAll_of_evalAll hargs⟩
  | .group e, _, _, _, h => by
    rw [eval] at h
    rw [Bound]
    exact bound_of_eval h

theorem boundAll_of_evalAll : ∀ {es : List Expr} {vs : List Value} {lines lines' : Array Line},
    evalAll definitions es lines = .ok vs lines' → BoundAll definitions es
  | [], _, _, _, _ => by
    rw [BoundAll]
    trivial
  | e :: es, _, _, _, h => by
    rw [evalAll] at h
    obtain ⟨_, _, he, h⟩ := exists_of_bind h
    obtain ⟨_, _, hes, -⟩ := exists_of_bind h
    rw [BoundAll]
    exact ⟨bound_of_eval he, boundAll_of_evalAll hes⟩

end

end Expr

/-- Whether all calls in a step are of definitions that are there. -/
def Op.Bound (definitions : List Subroutine) : Op → Prop
  | .call name args => (Expr.call name args).Bound definitions
  | .expr e => e.Bound definitions
  | .sleep e => e.Bound definitions
  | .highlight _ => True
  | .restore _ => True

theorem Op.Carries.bound {definitions : List Subroutine} {op : Op} {ds : List Deed}
    (h : op.Carries definitions ds) : op.Bound definitions := by
  cases h with
  | line hcall => exact Expr.bound_of_eval (hcall #[])
  | sleep he _ => exact Expr.bound_of_eval (he #[])
  | expr he => exact Expr.bound_of_eval (he #[])

/-! ### What blocks ask for -/

/-- A colour field holds a colour in written form. -/
theorem Socket.exists_of_coerce_colour {s : Socket} {u v : Value} (hk : s.kind = .colour)
    (h : s.coerce u = .ok v) : ∃ c : Rgb, v = .text c.hex := by
  rw [coerce, hk] at h
  cases hc : Rgb.ofValue? u with
  | none =>
      simp only [hc] at h
      cases h
  | some c =>
      simp only [hc] at h
      exact ⟨c, (Except.ok.inj h).symm⟩

/-- The type of a block tells the declaration that it stems from. -/
theorem Block.Stems.eq_of_type {b : Block} {d e : Declaration} (h : b.Stems .stock d)
    {type : String} (ht : b.type = .text type) (he : Vocabulary.stock.get type = .ok e) : d = e := by
  have hdecl := h.declared
  rw [ht] at hdecl
  exact Except.ok.inj (hdecl.symm.trans he)

/-- Whether the colour of a line is one in written form, and a wait is for whole seconds. -/
def Deed.Typed : Deed → Prop
  | .line _ colour => Rgb.IsHex colour
  | .sleep seconds => seconds.IsWhole

namespace Workspace

variable {w : Workspace} {x : String} {b : Block} {d : Declaration} {v : Value}

/-- A block whose output is a colour means a colour in written form. -/
theorem Means.exists_hex (hd : b.Stems .stock d) (hout : d.output = some [.text "Colour"])
    (h : w.Means b v) : ∃ s, v = .text s ∧ Rgb.IsHex s := by
  -- among the stock declarations two have colours as their output
  have htype : d = Vocabulary.colourPicker ∨ d = Vocabulary.colourRgb := by
    have hall : ∀ d ∈ Vocabulary.stock.declarations, d.output = some [.text "Colour"] →
        d = Vocabulary.colourPicker ∨ d = Vocabulary.colourRgb := by
      decide +kernel
    exact hall d (Vocabulary.mem_of_lookup hd.declared) hout
  have hname : b.type = .text "colour_picker" ∨ b.type = .text "colour_rgb" := by
    rcases htype with rfl | rfl
    · exact .inl hd.type_eq
    · exact .inr hd.type_eq
  cases h with
  | @field b type name v hf ht hv =>
      rcases htype with rfl | rfl
      · obtain rfl := Value.text.inj (ht.symm.trans hd.type_eq)
        obtain rfl := eq_of_valueFields hf (by decide : ("colour_picker", "COLOUR") ∈ valueFields)
        obtain ⟨u, hu, hcoerced⟩ := hd.exists_field (f := "COLOUR") rfl rfl
        obtain rfl := Option.some.inj (hu.symm.trans hv)
        rcases hcoerced with rfl | ⟨u', hu'⟩
        · exact ⟨_, rfl, Rgb.isHex_hex ⟨255, 0, 0⟩⟩
        · obtain ⟨c, rfl⟩ := Socket.exists_of_coerce_colour rfl hu'
          exact ⟨c.hex, rfl, Rgb.isHex_hex c⟩
      · obtain rfl := Value.text.inj (ht.symm.trans hd.type_eq)
        exact absurd rfl (not_join_of_valueFields hf).2
  | join ht _ _ =>
      rw [ht] at hname
      exact absurd hname (by decide)
  | rgb _ _ _ _ _ _ _ => exact ⟨_, rfl, Rgb.isHex_hex _⟩

/-- What is in a socket for colours is a colour in written form. -/
theorem Stocked.exists_hex (hs : w.Stocked) (hb : w.block? x = some b)
    (hd : b.Stems .stock Vocabulary.addText) (h : w.Fills b "COLOR" v) :
    ∃ s, v = .text s ∧ Rgb.IsHex s := by
  have hsock : Vocabulary.addText.input? (.text "COLOR") =
      some (Vocabulary.inputOf "COLOR" "Colour") := rfl
  have stands (h : w.StandsIn b "COLOR" v) : ∃ s, v = .text s ∧ Rgb.IsHex s := by
    obtain ⟨d, s, kind, hd', hs', hk, hv⟩ := h
    obtain rfl := Except.ok.inj ((hs.declarationOf hd).symm.trans hd')
    obtain rfl := Option.some.inj (hsock.symm.trans hs')
    obtain rfl : "Colour" = kind := by simpa [Vocabulary.inputOf] using hk
    exact ⟨"#ffffff", (Option.some.inj hv).symm, Rgb.isHex_hex ⟨255, 255, 255⟩⟩
  cases h with
  | @plugged b c socket y v hx hc _ hm =>
      have hchild : w.child? x (some "COLOR") = some y := child?_eq_some.mpr ⟨b, hb, hx⟩
      obtain ⟨e, hce, -, hout⟩ := hs.exists_output hb hd "COLOR" "Colour" hsock (by decide) hchild hc
      exact hm.exists_hex hce hout
  | off _ _ _ hstands => exact stands hstands
  | empty _ hstands => exact stands hstands

/-- The field for seconds holds a whole number that is not less than zero. -/
theorem isWhole_seconds (hd : b.Stems .stock Vocabulary.wait)
    (hv : Entries.get? b.fields "SECONDS" = some v) {x : Binary64} (hx : v.toFloat = .ok x) :
    x.IsWhole := by
  obtain ⟨u, hu, hcoerced⟩ := hd.exists_field (f := "SECONDS") rfl rfl
  obtain rfl := Option.some.inj (hu.symm.trans hv)
  obtain ⟨i, rfl, hi⟩ : ∃ i : Int, u = .int i ∧ 0 ≤ i := by
    rcases hcoerced with rfl | ⟨u', hu'⟩
    · exact ⟨1, rfl, by decide⟩
    · obtain ⟨i, hi, hpos, -⟩ := Socket.exists_of_coerce_whole rfl rfl rfl rfl hu'
      exact ⟨i, hi, hpos⟩
  change Number.ofInt i = .ok x at hx
  unfold Number.ofInt at hx
  split at hx
  · rename_i y hy
    exact Except.ok.inj hx ▸ Binary64.isWhole_of_ofInt? hi hy
  · cases hx

theorem Stocked.typed_does (hs : w.Stocked) (hb : w.block? x = some b) {ds : List Deed}
    (h : w.Does b ds) : ∀ d ∈ ds, d.Typed := by
  obtain ⟨d, hd⟩ := hs.stems x b hb
  cases h with
  | off => exact fun d hd => nomatch hd
  | line _ ht _ hc =>
      obtain rfl := hd.eq_of_type ht (e := Vocabulary.addText) rfl
      obtain ⟨s, rfl, hhex⟩ := hs.exists_hex hb hd hc
      exact List.forall_mem_singleton.mpr hhex
  | sleep _ ht hv hx =>
      obtain rfl := hd.eq_of_type ht (e := Vocabulary.wait) rfl
      exact List.forall_mem_singleton.mpr (isWhole_seconds hd hv hx)
  | value => exact fun d hd => nomatch hd

theorem Row.exists_block {bs : List Block} (h : w.Row x bs) :
    ∀ b ∈ bs, ∃ y, w.block? y = some b := by
  induction h with
  | last hb _ => exact List.forall_mem_singleton.mpr ⟨_, hb⟩
  | more hb _ _ ih => exact List.forall_mem_cons.mpr ⟨⟨_, hb⟩, ih⟩

/-- **What is read off a workspace is typed.** -/
theorem Stocked.typed_reads (hs : w.Stocked) {tops : List Block} {ds : List Deed}
    (h : w.Reads tops ds) : ∀ d ∈ ds, d.Typed := by
  obtain ⟨rows, parts, hrows, hparts, rfl⟩ := h
  intro d hd
  obtain ⟨part, hpart, hd⟩ := List.mem_flatten.mp hd
  obtain ⟨b, hb, hdoes⟩ := exists_of_mem_forall₂ hparts hpart
  obtain ⟨row, hrow, hb⟩ := List.mem_flatten.mp hb
  obtain ⟨t, -, x, -, hr⟩ := exists_of_mem_forall₂ hrows hrow
  obtain ⟨y, hy⟩ := hr.exists_block b hb
  exact hs.typed_does hy hdoes d hd

end Workspace

/-! ### What is imported -/

/-- Whether all that is imported is text. -/
def Compile.Texts (imports : List Value) : Prop := ∀ v ∈ imports, ∃ s, v = .text s

/-- What a program of the stock rules imports is text. -/
theorem Compiler.texts_imports {t : Compiler} (ht : t.rules = Compile.stockRules) {w : Workspace}
    {p : Program} (hp : t.program w = .ok p) : Compile.Texts p.imports := by
  have hdefine (wanted : Key) (lines : Except Error (List String)) (run : List Value → Emit Value) :
      Compile.Yields (fun d => Compile.Texts d.imports) (fun _ => True)
        (Compile.define wanted lines run) :=
    .define (fun _ _ _ _ => trivial) fun _ _ _ hd _ _ _ => ⟨trivial, hd⟩
  have himport : Compile.Yields (fun d => Compile.Texts d.imports) (fun _ => True)
      (Compile.require (.text "import asyncio")) := .require fun d hd v hv => by
    rcases List.mem_append.mp hv with hv | hv
    · exact hd v hv
    · exact ⟨_, List.mem_singleton.mp hv⟩
  have hrules : ∀ e ∈ t.rules, e.2.Yields (fun d => Compile.Texts d.imports) (fun _ => True)
      (fun _ _ => True) fun _ => True := by
    rw [ht]
    intro e he site _ hplug
    have hmade : Compile.Yields _ (Compile.Made site.block (fun _ _ => True) fun _ _ => True)
        (e.2 site) := Compile.yields_made (hdefine _ _ _) (hdefine _ _ _) himport he hplug
    exact hmade.mono fun _ _ => trivial
  obtain ⟨-, d, htexts, -, himports⟩ := Compile.exists_outcomes hrules (fun _ _ _ => trivial)
    (fun _ _ _ _ => trivial) (fun _ _ _ _ _ _ => trivial) (fun v hv => nomatch hv) hp
  exact himports ▸ htexts

/-- A program whose imports are texts can be shown. -/
theorem Program.exists_render {p : Program} (h : Compile.Texts p.imports) :
    ∃ text, p.render = .ok text := by
  have himports : ∃ texts, p.imports.mapM Value.toText = .ok texts := by
    generalize p.imports = imports at h
    induction imports with
    | nil => exact ⟨[], rfl⟩
    | cons v vs ih =>
        obtain ⟨s, rfl⟩ := h v List.mem_cons_self
        obtain ⟨texts, htexts⟩ := ih fun u hu => h u (List.mem_cons_of_mem _ hu)
        refine ⟨s :: texts, ?_⟩
        rw [List.mapM_cons, htexts]
        rfl
  obtain ⟨texts, htexts⟩ := himports
  unfold render sections
  rw [htexts]
  exact ⟨_, rfl⟩

end Blockwork
