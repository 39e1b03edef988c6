import Blockwork.Compile.Stock
import Blockwork.Proofs.Walks

/-!
# Reading a workspace

What the blocks of the stock vocabulary mean, read off a workspace without a program: the value of a
block (`Workspace.Means`) and of what is in its sockets (`Workspace.Fills`), what a block asks for
(`Workspace.Does`), and what the chains do one after the other (`Workspace.Reads`).  A workspace
means at most one thing (`Workspace.Reads.unique`).
-/

namespace Blockwork

/-- Something that blocks ask for: a line of text in a colour, or a wait of some seconds. -/
inductive Deed where
  | line (text colour : String)
  | sleep (seconds : Binary64)
  deriving DecidableEq

namespace Workspace

/-- The value that an empty socket for values of a kind stands for. -/
def standIn : String → Option Value
  | "String" => some (.text "")
  | "Colour" => some (.text "#ffffff")
  | "Number" => some (.int 0)
  | _ => none

/-- The fields that hold the values of blocks, by the types of these. -/
def valueFields : List (String × String) :=
  [("text", "TEXT"), ("colour_picker", "COLOUR"), ("math_number", "NUM")]

variable (w : Workspace)

/-- Whether a value is that of a socket of a block when there is nothing in it. -/
def StandsIn (b : Block) (socket : String) (v : Value) : Prop :=
  ∃ d s kind, w.declarationOf b = .ok d ∧ d.input? (.text socket) = some s ∧
    s.check = some [.text kind] ∧ standIn kind = some v

/-- Whether a number is nearest to a value, of two numbers that are equally near the even one. -/
def Rounds (v : Value) (i : Int) : Prop := ∃ x, v.toFloat = .ok x ∧ x.nearest? = some i

mutual

/-- Whether a block has a value. -/
inductive Means : Block → Value → Prop where
  | field {b : Block} {type name : String} {v : Value} : (type, name) ∈ valueFields →
      b.type = .text type → Entries.get? b.fields (.text name) = some v → Means b v
  | join {b : Block} {l r : Value} : b.type = .text "text_join" → Fills b "A" l →
      Fills b "B" r → Means b (.text (l.display ++ r.display))
  | rgb {b : Block} {r g bl : Value} {i j k : Int} : b.type = .text "colour_rgb" →
      Fills b "RED" r → Fills b "GREEN" g → Fills b "BLUE" bl → Rounds r i → Rounds g j →
      Rounds bl k → Means b (.text (Rgb.ofInts i j k).hex)

/-- Whether there is a value in a socket of a block: that of the block that is plugged in, if it is
turned on, and otherwise one that stands in for it. -/
inductive Fills : Block → String → Value → Prop where
  | plugged {b c : Block} {socket x : String} {v : Value} : b.child? (some socket) = some x →
      w.block? x = some c → c.isEnabled = true → Means c v → Fills b socket v
  | off {b c : Block} {socket x : String} {v : Value} : b.child? (some socket) = some x →
      w.block? x = some c → c.isEnabled = false → w.StandsIn b socket v → Fills b socket v
  | empty {b : Block} {socket : String} {v : Value} : b.child? (some socket) = none →
      w.StandsIn b socket v → Fills b socket v

end

/-- Whether a block asks for something; one that is turned off and one that has a value ask for
nothing. -/
inductive Does : Block → List Deed → Prop where
  | off {b : Block} : b.isEnabled = false → Does b []
  | line {b : Block} {t c : Value} : b.isEnabled = true → b.type = .text "add_text" →
      w.Fills b "TEXT" t → w.Fills b "COLOR" c → Does b [.line t.display c.display]
  | sleep {b : Block} {v : Value} {x : Binary64} : b.isEnabled = true → b.type = .text "wait" →
      Entries.get? b.fields "SECONDS" = some v → v.toFloat = .ok x → Does b [.sleep x]
  | value {b : Block} {v : Value} : b.isEnabled = true → w.Means b v → Does b []

/-- Whether blocks are those of a chain, each behind the one before it. -/
inductive Row : String → List Block → Prop where
  | last {x : String} {b : Block} : w.block? x = some b → b.next = .null → Row x [b]
  | more {x y : String} {b : Block} {bs : List Block} : w.block? x = some b → b.next = .text y →
      Row y bs → Row x (b :: bs)

/-- Whether the chains of some blocks ask for something, one after the other. -/
def Reads (tops : List Block) (deeds : List Deed) : Prop :=
  ∃ (rows : List (List Block)) (parts : List (List Deed)),
    List.Forall₂ (fun t bs => ∃ x, t.id = .text x ∧ w.Row x bs) tops rows ∧
      List.Forall₂ w.Does rows.flatten parts ∧ deeds = parts.flatten

/-! ### At most one meaning -/

variable {w}

theorem StandsIn.unique {b : Block} {socket : String} {u v : Value} (h : w.StandsIn b socket u)
    (k : w.StandsIn b socket v) : u = v := by
  obtain ⟨d, s, kind, hd, hs, hk, hu⟩ := h
  obtain ⟨d', s', kind', hd', hs', hk', hv⟩ := k
  obtain rfl := Except.ok.inj (hd.symm.trans hd')
  obtain rfl := Option.some.inj (hs.symm.trans hs')
  obtain rfl : kind = kind' := by simpa [hk] using hk'
  exact Option.some.inj (hu.symm.trans hv)

theorem Rounds.unique {v : Value} {i j : Int} (h : Rounds v i) (k : Rounds v j) : i = j := by
  obtain ⟨x, hx, hi⟩ := h
  obtain ⟨y, hy, hj⟩ := k
  obtain rfl := Except.ok.inj (hx.symm.trans hy)
  exact Option.some.inj (hi.symm.trans hj)

theorem eq_of_valueFields {type name name' : String} (h : (type, name) ∈ valueFields)
    (h' : (type, name') ∈ valueFields) : name = name' := by
  have hnd : (valueFields.map (·.1)).Nodup := by decide
  have he := List.inj_on_of_nodup_map hnd h h' rfl
  exact (Prod.mk.inj he).2

theorem not_join_of_valueFields {type name : String} (h : (type, name) ∈ valueFields) :
    type ≠ "text_join" ∧ type ≠ "colour_rgb" := by
  have hall : ∀ e ∈ valueFields, e.1 ≠ "text_join" ∧ e.1 ≠ "colour_rgb" := by decide
  exact hall _ h

mutual

theorem Means.unique : ∀ {b : Block} {u v : Value}, w.Means b u → w.Means b v → u = v
  | _, _, _, .field hf ht hu, .field hf' ht' hv => by
    obtain rfl := Value.text.inj (ht.symm.trans ht')
    obtain rfl := eq_of_valueFields hf hf'
    exact Option.some.inj (hu.symm.trans hv)
  | _, _, _, .field hf ht _, .join ht' _ _ =>
    absurd (Value.text.inj (ht.symm.trans ht')) (not_join_of_valueFields hf).1
  | _, _, _, .field hf ht _, .rgb ht' _ _ _ _ _ _ =>
    absurd (Value.text.inj (ht.symm.trans ht')) (not_join_of_valueFields hf).2
  | _, _, _, .join ht _ _, .field hf ht' _ =>
    absurd (Value.text.inj (ht'.symm.trans ht)) (not_join_of_valueFields hf).1
  | _, _, _, .join _ hl hr, .join _ hl' hr' => by rw [hl.unique hl', hr.unique hr']
  | _, _, _, .join ht _ _, .rgb ht' _ _ _ _ _ _ =>
    absurd (Value.text.inj (ht.symm.trans ht')) (by decide)
  | _, _, _, .rgb ht _ _ _ _ _ _, .field hf ht' _ =>
    absurd (Value.text.inj (ht'.symm.trans ht)) (not_join_of_valueFields hf).2
  | _, _, _, .rgb ht _ _ _ _ _ _, .join ht' _ _ =>
    absurd (Value.text.inj (ht.symm.trans ht')) (by decide)
  | _, _, _, .rgb _ hr hg hb hi hj hk, .rgb _ hr' hg' hb' hi' hj' hk' => by
    have hi'' := (hr.unique hr' ▸ hi).unique hi'
    have hj'' := (hg.unique hg' ▸ hj).unique hj'
    have hk'' := (hb.unique hb' ▸ hk).unique hk'
    rw [hi'', hj'', hk'']

theorem Fills.unique : ∀ {b : Block} {socket : String} {u v : Value}, w.Fills b socket u →
    w.Fills b socket v → u = v
  | _, _, _, _, .plugged hx hc _ hu, .plugged hx' hc' _ hv => by
    obtain rfl := Option.some.inj (hx.symm.trans hx')
    obtain rfl := Option.some.inj (hc.symm.trans hc')
    exact hu.unique hv
  | _, _, _, _, .plugged hx hc he _, .off hx' hc' he' _ => by
    obtain rfl := Option.some.inj (hx.symm.trans hx')
    obtain rfl := Option.some.inj (hc.symm.trans hc')
    rw [he] at he'
    cases he'
  | _, _, _, _, .plugged hx _ _ _, .empty hx' _ => by rw [hx] at hx'; cases hx'
  | _, _, _, _, .off hx hc he _, .plugged hx' hc' he' _ => by
    obtain rfl := Option.some.inj (hx.symm.trans hx')
    obtain rfl := Option.some.inj (hc.symm.trans hc')
    rw [he] at he'
    cases he'
  | _, _, _, _, .off _ _ _ hu, .off _ _ _ hv => hu.unique hv
  | _, _, _, _, .off hx _ _ _, .empty hx' _ => by rw [hx] at hx'; cases hx'
  | _, _, _, _, .empty hx _, .plugged hx' _ _ _ => by rw [hx] at hx'; cases hx'
  | _, _, _, _, .empty hx _, .off hx' _ _ _ => by rw [hx] at hx'; cases hx'
  | _, _, _, _, .empty _ hu, .empty _ hv => hu.unique hv

end

theorem Means.type {b : Block} {v : Value} (h : w.Means b v) :
    b.type ≠ .text "add_text" ∧ b.type ≠ .text "wait" := by
  have hall : ∀ e ∈ valueFields, Value.text e.1 ≠ .text "add_text" ∧ Value.text e.1 ≠ .text "wait" := by
    decide
  cases h with
  | field hf ht _ =>
      rw [ht]
      exact hall _ hf
  | join ht _ _ =>
      rw [ht]
      decide
  | rgb ht _ _ _ _ _ _ =>
      rw [ht]
      decide

theorem Does.unique {b : Block} {ds es : List Deed} (h : w.Does b ds) (k : w.Does b es) :
    ds = es := by
  have switch {b : Block} (h : b.isEnabled = true) (k : b.isEnabled = false) : False := by
    rw [h] at k
    cases k
  cases h with
  | off he =>
      cases k with
      | off => rfl
      | line he' | sleep he' | value he' => exact (switch he' he).elim
  | line he ht hl hc =>
      cases k with
      | off he' => exact (switch he he').elim
      | line _ _ hl' hc' => rw [hl.unique hl', hc.unique hc']
      | sleep _ ht' => exact absurd (Value.text.inj (ht.symm.trans ht')) (by decide)
      | value _ hm => exact absurd ht hm.type.1
  | sleep he ht hv hx =>
      cases k with
      | off he' => exact (switch he he').elim
      | line _ ht' => exact absurd (Value.text.inj (ht.symm.trans ht')) (by decide)
      | sleep _ _ hv' hx' =>
          obtain rfl := Option.some.inj (hv.symm.trans hv')
          rw [Except.ok.inj (hx.symm.trans hx')]
      | value _ hm => exact absurd ht hm.type.2
  | value he hm =>
      cases k with
      | off => rfl
      | line _ ht => exact absurd ht hm.type.1
      | sleep _ ht => exact absurd ht hm.type.2
      | value => rfl

theorem Row.unique {x : String} {bs cs : List Block} (h : w.Row x bs) (k : w.Row x cs) :
    bs = cs := by
  induction h generalizing cs with
  | last hb hn =>
      cases k with
      | last hb' => rw [Option.some.inj (hb.symm.trans hb')]
      | more hb' hn' =>
          obtain rfl := Option.some.inj (hb.symm.trans hb')
          exact nomatch hn.symm.trans hn'
  | more hb hn _ ih =>
      cases k with
      | last hb' hn' =>
          obtain rfl := Option.some.inj (hb.symm.trans hb')
          exact nomatch hn.symm.trans hn'
      | more hb' hn' hr' =>
          obtain rfl := Option.some.inj (hb.symm.trans hb')
          obtain rfl := Value.text.inj (hn.symm.trans hn')
          rw [ih hr']

/-- Lists that are made item by item from one list are equal, where there is one way to do so. -/
theorem eq_of_forall₂ {α β : Type} {R : α → β → Prop} {as : List α} {bs cs : List β}
    (hu : ∀ a b c, R a b → R a c → b = c) (h : List.Forall₂ R as bs) (k : List.Forall₂ R as cs) :
    bs = cs := by
  induction h generalizing cs with
  | nil =>
      cases k
      rfl
  | cons hr _ ih =>
      cases k with
      | cons hr' hk => rw [hu _ _ _ hr hr', ih hk]

/-- Chains ask for one thing only. -/
theorem Reads.unique {tops : List Block} {ds es : List Deed} (h : w.Reads tops ds)
    (k : w.Reads tops es) : ds = es := by
  obtain ⟨rows, parts, hrows, hparts, rfl⟩ := h
  obtain ⟨rows', parts', hrows', hparts', rfl⟩ := k
  obtain rfl : rows = rows' := eq_of_forall₂ (fun t bs cs hb hc => by
    obtain ⟨x, hx, hbs⟩ := hb
    obtain ⟨y, hy, hcs⟩ := hc
    obtain rfl := Value.text.inj (hx.symm.trans hy)
    exact hbs.unique hcs) hrows hrows'
  rw [eq_of_forall₂ (fun _ _ _ hd he => hd.unique he) hparts hparts']

end Workspace

end Blockwork
