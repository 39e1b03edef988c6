import Blockwork.Compile.Names
import Blockwork.Program.Basic
import Blockwork.Proofs.Spelling

/-!
# Legible expressions

The expressions of programs over the stock vocabulary can be told from how they are shown.  Their
literals are scalars and no infinite numbers, they call one definition, and what is joined to
something else is grouped unless it holds together by itself (`Expr.Legible`).  Two such expressions
that are shown alike, up to what comes after them, are the same (`Expr.Legible.unique`): the first
character tells a literal, a call and a group apart, the character behind one of these tells whether
it is joined to something, and the end of each part is the end of the whole or is marked.  So two
steps that are shown on the same line are the same (`Op.Legible.akin_of_line`), but for the payload
of an id that is not a number.
-/

namespace Blockwork

open Text (Word Stops)

/-! ### Names -/

/-- Whether a definition may be given a name where another one is wanted: that one, with a number
after it or without. -/
def Names.Stems (wanted name : String) : Prop := ∃ n, name = candidate wanted n

theorem Names.Stems.exists_digits {wanted name : String} (h : Stems wanted name) :
    ∃ ds, Decimal.Digits ds ∧ name.toList = wanted.toList ++ ds := by
  obtain ⟨n, rfl⟩ := h
  unfold candidate
  split
  · exact ⟨[], Decimal.digits_zeros 0, (List.append_nil _).symm⟩
  · exact ⟨_, Decimal.digits_digits (n + 1), by rw [String.toList_append, String.toList_ofList]; rfl⟩

theorem Names.Stems.word {wanted name : String} (h : Stems wanted name) (hw : Word wanted.toList) :
    Word name.toList := by
  obtain ⟨ds, hds, hname⟩ := h.exists_digits
  rw [hname]
  refine ⟨List.append_ne_nil_of_left_ne_nil hw.ne_nil _, fun c hc => ?_⟩
  rcases List.mem_append.mp hc with hc | hc
  · exact hw.forall_mem c hc
  · exact Decimal.isWord_of_isDigit (hds c hc)

theorem Names.word_addText : Word "add_text".toList := ⟨by decide, Decimal.forall_mem_of_all (by decide)⟩

theorem Names.word_colourRgb : Word "colour_rgb".toList := ⟨by decide, Decimal.forall_mem_of_all (by decide)⟩

/-! ### What is shown -/

theorem List.intercalate_cons {α : Type} (sep a : List α) (as : List (List α)) :
    sep.intercalate (a :: as) = a ++ as.flatMap (sep ++ ·) := by
  induction as generalizing a with
  | nil => simp
  | cons b as ih =>
      rw [List.intercalate_cons_of_ne_nil (List.cons_ne_nil _ _), ih, List.flatMap_cons]
      simp only [List.append_assoc]

/-- Whether a key is no infinite number, and no number at all that is none. -/
def Key.Finite (k : Key) : Prop := ∀ x, k = .float x → x.isFinite = true

theorem Key.finite_text (s : String) : (Key.text s).Finite := fun _ h => by cases h

theorem Key.finite_int (i : Int) : (Key.int i).Finite := fun _ h => by cases h

theorem Key.finite_null : Key.null.Finite := fun _ h => by cases h

theorem Key.Finite.definite {k : Key} (h : k.Finite) : k.Definite := fun _ hk => nomatch h _ hk

namespace Expr

/-- The characters that an expression is shown with. -/
def chars (e : Expr) : List Char := e.render.toList

/-- Whether an expression holds together by itself. -/
def isAtom : Expr → Bool
  | .concat .. => false
  | _ => true

/-- Whether what an expression is can be seen from how it is shown: its literals are scalars and
finite, what is joined in it holds together by itself, and it calls no definition but one. -/
inductive Legible : Expr → Prop where
  | literal {k : Key} : k.Finite → Legible (.literal (.ofKey k))
  | concat {l r : Expr} : Legible l → Legible r → l.isAtom = true → r.isAtom = true →
      Legible (.concat l r)
  | call {name : String} {args : List Expr} : Names.Stems "colour_rgb" name →
      (∀ e ∈ args, Legible e) → Legible (.call (.text name) args)
  | group {e : Expr} : Legible e → Legible (.group e)

variable {e e' l r : Expr} {args args' : List Expr} {name name' : String} {k : Key}
  {rest rest' : List Char}

theorem chars_literal (k : Key) : (literal (.ofKey k)).chars = k.quoted.toList :=
  congrArg String.toList (Value.quoted_ofKey k)

/-- An expression that is joined, and what comes after it. -/
theorem chars_concat_append (l r : Expr) (rest : List Char) :
    (concat l r).chars ++ rest = l.chars ++ ' ' :: '+' :: ' ' :: (r.chars ++ rest) := by
  simp [chars, render]

theorem chars_group_append (e : Expr) (rest : List Char) :
    (group e).chars ++ rest = '(' :: (e.chars ++ ')' :: rest) := by
  simp [chars, render]

/-- The characters of arguments, from the second one on with a comma before each. -/
def charsAfter (args : List Expr) : List Char := args.flatMap fun e => ',' :: ' ' :: e.chars

/-- The characters of arguments. -/
def charsAll : List Expr → List Char
  | [] => []
  | e :: es => e.chars ++ charsAfter es

theorem chars_call_append (name : String) (args : List Expr) (rest : List Char) :
    (call (.text name) args).chars ++ rest = name.toList ++ '(' :: (charsAll args ++ ')' :: rest) := by
  have hmap (es : List Expr) : renderAll es = es.map render := by
    induction es with
    | nil => rfl
    | cons e es ih => rw [renderAll, ih, List.map_cons]
  have hall : (", ".intercalate (renderAll args)).toList = charsAll args := by
    rw [String.toList_intercalate, hmap]
    cases args with
    | nil => rfl
    | cons e es =>
        rw [List.map_cons, List.map_cons, List.intercalate_cons, List.flatMap_map, List.flatMap_map]
        rfl
  simp [chars, render, Value.display, hall]

/-- The characters that a legible expression may begin with. -/
def openers : List Char := "'\"(cNTF0123456789.e+-".toList

theorem mem_openers_of_plain : ∀ c ∈ Decimal.numeralChars, c ∈ openers :=
  Decimal.forall_mem_of_all (by decide)

theorem exists_opener_quoted (h : k.Finite) :
    ∃ c cs, k.quoted.toList = c :: cs ∧ c ∈ openers := by
  have hplain {cs : List Char} (hne : cs ≠ []) (hcs : Decimal.Plain cs) :
      ∃ d ds, cs = d :: ds ∧ d ∈ openers := by
    obtain ⟨d, ds, rfl⟩ := List.exists_cons_of_ne_nil hne
    exact ⟨d, ds, rfl, mem_openers_of_plain d (hcs d List.mem_cons_self)⟩
  cases k with
  | null => exact ⟨_, _, rfl, by decide⟩
  | bool b => cases b <;> exact ⟨_, _, rfl, by decide⟩
  | text s =>
      obtain ⟨mark, cs, hquoted, rfl | rfl⟩ := Key.exists_quoted_text s
      · exact ⟨_, cs, hquoted, by decide⟩
      · exact ⟨_, cs, hquoted, by decide⟩
  | int i =>
      refine hplain (Decimal.word_integer i).ne_nil fun c hc => ?_
      rcases Decimal.mem_integer hc with rfl | hc
      · decide
      · exact Decimal.mem_numeralChars_of_isDigit hc
  | float x => exact hplain (Decimal.word_text x).ne_nil (Decimal.plain_text (h x rfl))

theorem word_stem (h : Names.Stems "colour_rgb" name) : Word name.toList :=
  h.word Names.word_colourRgb

theorem exists_chars_call (h : Names.Stems "colour_rgb" name) (args : List Expr) :
    ∃ cs, (call (.text name) args).chars = 'c' :: cs := by
  obtain ⟨ds, -, hds⟩ := h.exists_digits
  exact ⟨_, by rw [← List.append_nil (call _ _).chars, chars_call_append, hds]; rfl⟩

/-- A legible expression begins with a character that no other part of a line begins with. -/
theorem Legible.exists_opener (h : e.Legible) : ∃ c cs, e.chars = c :: cs ∧ c ∈ openers := by
  induction h with
  | literal hk =>
      rw [chars_literal]
      exact exists_opener_quoted hk
  | @concat l r _ _ _ _ ih _ =>
      obtain ⟨c, cs, hl, hc⟩ := ih
      refine ⟨c, cs ++ ' ' :: '+' :: ' ' :: (r.chars ++ []), ?_, hc⟩
      rw [← List.append_nil (Expr.concat l r).chars, chars_concat_append, hl]
      rfl
  | @call name args hname _ _ =>
      obtain ⟨cs, hcs⟩ := exists_chars_call hname args
      exact ⟨'c', cs, hcs, by decide⟩
  | @group e _ _ =>
      exact ⟨'(', _, (List.append_nil _).symm.trans (chars_group_append e []), by decide⟩

theorem newline_notMem_call (hname : Word name.toList) (h : ∀ e ∈ args, '\n' ∉ e.chars) :
    '\n' ∉ (call (.text name) args).chars := by
  have hargs : '\n' ∉ charsAll args := by
    cases args with
    | nil => exact List.not_mem_nil
    | cons e es =>
        obtain ⟨he, hes⟩ := List.forall_mem_cons.mp h
        simp only [charsAll, charsAfter, List.mem_append, List.mem_flatMap, List.mem_cons]
        rintro (hmem | ⟨e', he', hmem | hmem | hmem⟩)
        · exact he hmem
        · cases hmem
        · cases hmem
        · exact hes e' he' hmem
  rw [← List.append_nil (Expr.chars _), chars_call_append]
  simp [hname.newline_notMem, hargs]

/-- A legible expression is on one line. -/
theorem Legible.newline_notMem (h : e.Legible) : '\n' ∉ e.chars := by
  induction h with
  | literal hk =>
      rw [chars_literal]
      exact Key.newline_notMem_quoted _
  | @concat l r _ _ _ _ ihl ihr =>
      rw [← List.append_nil (Expr.concat l r).chars, chars_concat_append]
      simp [ihl, ihr]
  | call hname _ ih => exact newline_notMem_call (word_stem hname) ih
  | @group e _ ih =>
      rw [← List.append_nil (Expr.group e).chars, chars_group_append]
      simp [ih]

/-! ### What comes after -/

/-- Whether nothing but the end of a list of arguments, or of a group, comes after an expression. -/
def Closes (rest : List Char) : Prop := ∀ c ∈ rest.head?, c = ',' ∨ c = ')'

/-- Whether nothing else but what it is joined to comes after an expression. -/
def Follows (rest : List Char) : Prop := ∀ c ∈ rest.head?, c = ' ' ∨ c = ',' ∨ c = ')'

theorem Closes.follows (h : Closes rest) : Follows rest := fun c hc => .inr (h c hc)

theorem Follows.stops (h : Follows rest) : Stops rest := fun c hc => by
  rcases h c hc with rfl | rfl | rfl
  · rfl
  · rfl
  · rfl

theorem closes_paren (rest : List Char) : Closes (')' :: rest) := fun _ hc =>
  .inr (Option.some.inj hc).symm

/-- Whether an expression is known from how it is shown, wherever it stands. -/
def Unique (e : Expr) : Prop := ∀ ⦃e' : Expr⦄ ⦃rest rest' : List Char⦄, e'.Legible → Closes rest →
  Closes rest' → e.chars ++ rest = e'.chars ++ rest' → e = e' ∧ rest = rest'

/-- Whether an expression is known from how it is shown, also where it may be joined to something,
among those that hold together by themselves. -/
def UniqueAtom (e : Expr) : Prop := ∀ ⦃e' : Expr⦄ ⦃rest rest' : List Char⦄, e'.Legible →
  e'.isAtom = true → Follows rest → Follows rest' → e.chars ++ rest = e'.chars ++ rest' →
    e = e' ∧ rest = rest'

theorem closes_charsAfter (args : List Expr) (rest : List Char) :
    Closes (charsAfter args ++ ')' :: rest) := by
  cases args with
  | nil => exact closes_paren rest
  | cons e es => exact fun c hc => .inl (Option.some.inj hc).symm

theorem charsAfter_append_inj (h : ∀ e ∈ args, e.Unique) (h' : ∀ e ∈ args', e.Legible)
    (he : charsAfter args ++ ')' :: rest = charsAfter args' ++ ')' :: rest') :
    args = args' ∧ rest = rest' := by
  induction args generalizing args' with
  | nil =>
      cases args' with
      | nil => exact ⟨rfl, (List.cons.inj he).2⟩
      | cons e' es' => exact absurd (List.cons.inj he).1 (by decide)
  | cons e es ih =>
      cases args' with
      | nil => exact absurd (List.cons.inj he).1 (by decide)
      | cons e' es' =>
          obtain ⟨hunique, hes⟩ := List.forall_mem_cons.mp h
          obtain ⟨hlegible, hes'⟩ := List.forall_mem_cons.mp h'
          have htail : e.chars ++ (charsAfter es ++ ')' :: rest) =
              e'.chars ++ (charsAfter es' ++ ')' :: rest') := by
            simpa [charsAfter] using he
          obtain ⟨rfl, hrest⟩ := hunique hlegible (closes_charsAfter es rest)
            (closes_charsAfter es' rest') htail
          obtain ⟨rfl, rfl⟩ := ih hes hes' hrest
          exact ⟨rfl, rfl⟩

theorem Legible.chars_ne_paren (h : e.Legible) : e.chars ++ rest ≠ ')' :: rest' := by
  obtain ⟨c, cs, hchars, hc⟩ := h.exists_opener
  rw [hchars]
  intro he
  rw [(List.cons.inj he).1] at hc
  exact absurd hc (by decide)

/-- Arguments are known from how they are shown. -/
theorem charsAll_append_inj (h : ∀ e ∈ args, e.Unique) (hl : ∀ e ∈ args, e.Legible)
    (h' : ∀ e ∈ args', e.Legible)
    (he : charsAll args ++ ')' :: rest = charsAll args' ++ ')' :: rest') :
    args = args' ∧ rest = rest' := by
  cases args with
  | nil =>
      cases args' with
      | nil => exact ⟨rfl, (List.cons.inj he).2⟩
      | cons e' es' =>
          rw [charsAll, charsAll, List.append_assoc] at he
          exact absurd he.symm (h' e' List.mem_cons_self).chars_ne_paren
  | cons e es =>
      cases args' with
      | nil =>
          rw [charsAll, charsAll, List.append_assoc] at he
          exact absurd he (hl e List.mem_cons_self).chars_ne_paren
      | cons e' es' =>
          rw [charsAll, charsAll, List.append_assoc, List.append_assoc] at he
          obtain ⟨rfl, hrest⟩ := h e List.mem_cons_self (h' e' List.mem_cons_self)
            (closes_charsAfter es rest) (closes_charsAfter es' rest') he
          obtain ⟨rfl, rfl⟩ := charsAfter_append_inj (fun e he => h e (List.mem_cons_of_mem _ he))
            (fun e he => h' e (List.mem_cons_of_mem _ he)) hrest
          exact ⟨rfl, rfl⟩

/-- Calls are known from how they are shown, whatever is called. -/
theorem chars_call_append_inj (hw : Word name.toList) (hw' : Word name'.toList)
    (h : ∀ e ∈ args, e.Unique) (hl : ∀ e ∈ args, e.Legible) (h' : ∀ e ∈ args', e.Legible)
    (he : (call (.text name) args).chars ++ rest = (call (.text name') args').chars ++ rest') :
    call (.text name) args = call (.text name') args' ∧ rest = rest' := by
  have hstops (cs : List Char) : Stops ('(' :: cs) := fun c hc => by
    rw [← Option.some.inj hc]
    rfl
  rw [chars_call_append, chars_call_append] at he
  obtain ⟨hname, hargs⟩ := hw.append_inj hw' (hstops _) (hstops _) he
  obtain ⟨rfl, hrest⟩ := charsAll_append_inj h hl h' (List.cons.inj hargs).2
  rw [String.toList_inj.mp hname]
  exact ⟨rfl, hrest⟩

/-! ### Telling expressions apart -/

/-- A literal is no call: what comes after a literal is no opening parenthesis. -/
theorem literal_ne_call (hk : k.Finite) (hname : Names.Stems "colour_rgb" name)
    (hrest : Follows rest) :
    (literal (.ofKey k)).chars ++ rest ≠ (call (.text name) args).chars ++ rest' := by
  intro he
  rw [chars_literal, chars_call_append] at he
  by_cases htext : ∃ s, k = .text s
  · obtain ⟨s, rfl⟩ := htext
    exact Key.quoted_text_ne_word (word_stem hname) he
  · have hstops : Stops ('(' :: (charsAll args ++ ')' :: rest')) := fun c hc => by
      rw [← Option.some.inj hc]
      rfl
    obtain ⟨-, rfl⟩ := (Key.word_quoted (not_exists.mp htext)).append_inj (word_stem hname)
      hrest.stops hstops he
    rcases hrest '(' rfl with h | h | h
    · cases h
    · cases h
    · cases h

/-- What does not begin with a parenthesis is no group. -/
theorem ne_group_of_head {c : Char} {cs : List Char} (hchars : e.chars = c :: cs) (hc : c ≠ '(') :
    e.chars ++ rest ≠ (group e').chars ++ rest' := by
  intro he
  rw [hchars, chars_group_append] at he
  exact hc (List.cons.inj he).1

theorem literal_ne_group (k : Key) :
    (literal (.ofKey k)).chars ++ rest ≠ (group e').chars ++ rest' := by
  by_cases htext : ∃ s, k = .text s
  · obtain ⟨s, rfl⟩ := htext
    obtain ⟨mark, cs, hquoted, hmark⟩ := Key.exists_quoted_text s
    refine ne_group_of_head ((chars_literal _).trans hquoted) ?_
    rcases hmark with rfl | rfl
    · decide
    · decide
  · have hword := Key.word_quoted (not_exists.mp htext)
    obtain ⟨c, cs, hquoted⟩ := List.exists_cons_of_ne_nil hword.ne_nil
    refine ne_group_of_head ((chars_literal _).trans hquoted) ?_
    rintro rfl
    exact absurd (hword.forall_mem '(' (hquoted ▸ List.mem_cons_self)) (by decide)

theorem call_ne_group (hname : Names.Stems "colour_rgb" name) :
    (call (.text name) args).chars ++ rest ≠ (group e').chars ++ rest' := by
  obtain ⟨cs, hcs⟩ := exists_chars_call hname args
  exact ne_group_of_head hcs (by decide)

theorem uniqueAtom_literal (hk : k.Finite) : UniqueAtom (literal (.ofKey k)) := by
  intro e' rest rest' hlegible hatom hrest hrest' he
  cases hlegible with
  | literal hk' =>
      rw [chars_literal, chars_literal] at he
      obtain ⟨hakin, hrest⟩ := Key.quoted_append_inj hrest.stops hrest'.stops he
      obtain rfl := hakin.eq hk.definite
      exact ⟨rfl, hrest⟩
  | concat => cases hatom
  | call hname => exact absurd he (literal_ne_call hk hname hrest)
  | group => exact absurd he (literal_ne_group k)

theorem uniqueAtom_call (hname : Names.Stems "colour_rgb" name) (hargs : ∀ e ∈ args, e.Legible)
    (ih : ∀ e ∈ args, e.Unique) : UniqueAtom (call (.text name) args) := by
  intro e' rest rest' hlegible hatom _ hrest' he
  cases hlegible with
  | literal hk => exact absurd he.symm (literal_ne_call hk hname hrest')
  | concat => cases hatom
  | call hname' hargs' =>
      exact chars_call_append_inj (word_stem hname) (word_stem hname') ih hargs hargs' he
  | group => exact absurd he (call_ne_group hname)

theorem uniqueAtom_group (ih : e.Unique) : UniqueAtom (group e) := by
  intro e' rest rest' hlegible hatom _ _ he
  cases hlegible with
  | @literal k => exact absurd he.symm (literal_ne_group k)
  | concat => cases hatom
  | call hname => exact absurd he.symm (call_ne_group hname)
  | group hinner =>
      rw [chars_group_append, chars_group_append] at he
      obtain ⟨rfl, hrest⟩ := ih hinner (closes_paren rest) (closes_paren rest') (List.cons.inj he).2
      exact ⟨rfl, (List.cons.inj hrest).2⟩

theorem follows_plus (rest : List Char) : Follows (' ' :: rest) := fun _ hc =>
  .inl (Option.some.inj hc).symm

theorem Closes.ne_plus (h : Closes rest) : rest ≠ ' ' :: rest' := by
  rintro rfl
  rcases h ' ' rfl with h | h
  · cases h
  · cases h

/-- What holds together by itself is known also from among expressions that are joined. -/
theorem UniqueAtom.unique (h : e.UniqueAtom) : e.Unique := by
  intro e' rest rest' hlegible hrest hrest' he
  cases hlegible with
  | concat hl _ hatom _ =>
      rw [chars_concat_append] at he
      exact absurd (h hl hatom hrest.follows (follows_plus _) he).2 hrest.ne_plus
  | literal hk => exact h (.literal hk) rfl hrest.follows hrest'.follows he
  | call hname hargs => exact h (.call hname hargs) rfl hrest.follows hrest'.follows he
  | group hinner => exact h (.group hinner) rfl hrest.follows hrest'.follows he

theorem unique_concat (hl : l.UniqueAtom) (hr : r.Unique) : (concat l r).Unique := by
  intro e' rest rest' hlegible hrest hrest' he
  rw [chars_concat_append] at he
  have hatom (hlegible : e'.Legible) (hatom : e'.isAtom = true)
      (he : l.chars ++ ' ' :: '+' :: ' ' :: (r.chars ++ rest) = e'.chars ++ rest') : False :=
    hrest'.ne_plus (hl hlegible hatom (follows_plus _) hrest'.follows he).2.symm
  cases hlegible with
  | concat hl' hr' hatom' _ =>
      rw [chars_concat_append] at he
      obtain ⟨rfl, htail⟩ := hl hl' hatom' (follows_plus _) (follows_plus _) he
      obtain ⟨rfl, hrest⟩ := hr hr' hrest hrest'
        (List.cons.inj (List.cons.inj (List.cons.inj htail).2).2).2
      exact ⟨rfl, hrest⟩
  | literal hk => exact (hatom (.literal hk) rfl he).elim
  | call hname hargs => exact (hatom (.call hname hargs) rfl he).elim
  | group hinner => exact (hatom (.group hinner) rfl he).elim

/-- **A legible expression is known from how it is shown.** -/
theorem Legible.unique (h : e.Legible) : e.Unique ∧ (e.isAtom = true → e.UniqueAtom) := by
  induction h with
  | literal hk => exact ⟨(uniqueAtom_literal hk).unique, fun _ => uniqueAtom_literal hk⟩
  | concat _ _ hatom _ ihl ihr =>
      exact ⟨unique_concat (ihl.2 hatom) ihr.1, fun h => nomatch h⟩
  | call hname hargs ih =>
      have hunique := uniqueAtom_call hname hargs fun e he => (ih e he).1
      exact ⟨hunique.unique, fun _ => hunique⟩
  | group _ ih => exact ⟨(uniqueAtom_group ih.1).unique, fun _ => uniqueAtom_group ih.1⟩

end Expr

/-! ### Steps -/

namespace Op

/-- Whether what a step is can be seen from its line. -/
inductive Legible : Op → Prop where
  | call {name : String} {args : List Expr} : Names.Stems "add_text" name →
      (∀ e ∈ args, e.Legible) → Legible (.call (.text name) args)
  | expr {e : Expr} : e.Legible → Legible (.expr e)
  | sleep {e : Expr} : e.Legible → Legible (.sleep e)
  | highlight (k : Key) : Legible (.highlight (.ofKey k))
  | restore (k : Key) : Legible (.restore (.ofKey k))

/-- Whether two steps are the same, but for the payload of the id of the block that they highlight
or restore. -/
inductive Akin : Op → Op → Prop where
  | refl (op : Op) : Akin op op
  | highlight {j k : Key} : j.Akin k → Akin (.highlight (.ofKey j)) (.highlight (.ofKey k))
  | restore {j k : Key} : j.Akin k → Akin (.restore (.ofKey j)) (.restore (.ofKey k))

/-- Whether a step highlights or restores no block whose id is no number. -/
def Definite (op : Op) : Prop :=
  ∀ k, op = .highlight (.ofKey k) ∨ op = .restore (.ofKey k) → k.Definite

theorem Akin.eq {op op' : Op} (h : op.Akin op') (hd : op.Definite) : op = op' := by
  cases h with
  | refl => rfl
  | highlight hakin => rw [hakin.eq (hd _ (.inl rfl))]
  | restore hakin => rw [hakin.eq (hd _ (.inr rfl))]

/-- The characters of the line of a step, up to its end. -/
def line : Op → List Char
  | .call name args => (Expr.call name args).chars
  | .expr e => e.chars
  | .sleep e => 'a' :: 'w' :: ("ait asyncio.sleep(".toList ++ (e.chars ++ [')']))
  | .highlight id => 'h' :: ("ighlight_block(".toList ++ (id.quoted.toList ++ [')']))
  | .restore id => 'r' :: ("estore_block(".toList ++ (id.quoted.toList ++ [')']))

variable {op op' : Op}

theorem toList_render (op : Op) : op.render.toList = op.line ++ ['\n'] := by
  have hend (s : String) : (s ++ "\n").toList = s.toList ++ ['\n'] := by simp
  cases op with
  | call name args =>
      have hcall : (Op.call name args).render = (Expr.call name args).render ++ "\n" := rfl
      rw [hcall, hend, line, Expr.chars]
  | expr e => rw [show (Op.expr e).render = e.render ++ "\n" from rfl, hend, line, Expr.chars]
  | sleep e =>
      change ("await asyncio.sleep(" ++ e.render ++ ")\n").toList = _
      simp [line, Expr.chars]
  | highlight id =>
      change (highlightName ++ "(" ++ id.quoted ++ ")\n").toList = _
      simp [line, highlightName]
  | restore id =>
      change (restoreName ++ "(" ++ id.quoted ++ ")\n").toList = _
      simp [line, restoreName]

/-- Which kind of a step a line is of, as its first characters tell. -/
def kindOf : List Char → Nat
  | 'a' :: 'd' :: _ => 0
  | 'a' :: 'w' :: _ => 1
  | 'h' :: _ => 2
  | 'r' :: _ => 3
  | _ => 4

/-- Which kind of a step a step is. -/
def kind : Op → Nat
  | .call .. => 0
  | .sleep .. => 1
  | .highlight .. => 2
  | .restore .. => 3
  | .expr .. => 4

theorem exists_line_call {name : String} (h : Names.Stems "add_text" name) (args : List Expr) :
    ∃ cs, (Op.call (.text name) args).line = 'a' :: 'd' :: cs := by
  obtain ⟨ds, -, hds⟩ := h.exists_digits
  have hhead : "add_text".toList = 'a' :: 'd' :: "d_text".toList := by decide
  exact ⟨_, by rw [line, ← List.append_nil (Expr.chars _), Expr.chars_call_append, hds, hhead]; rfl⟩

/-- An expression does not begin like a step of another kind, nor like any other line. -/
theorem kindOf_of_mem_openers {c : Char} (hc : c ∈ Expr.openers) (cs : List Char) :
    kindOf (c :: cs) = 4 := by
  have hopeners : ∀ c ∈ Expr.openers, c ≠ 'a' ∧ c ≠ 'h' ∧ c ≠ 'r' :=
    Decimal.forall_mem_of_all (by decide)
  obtain ⟨ha, hh, hr⟩ := hopeners c hc
  unfold kindOf
  split
  · rename_i he
    exact absurd (List.cons.inj he).1 ha
  · rename_i he
    exact absurd (List.cons.inj he).1 ha
  · rename_i he
    exact absurd (List.cons.inj he).1 hh
  · rename_i he
    exact absurd (List.cons.inj he).1 hr
  · rfl

/-- The kind of a step can be told from its line. -/
theorem Legible.kindOf_line (h : op.Legible) : kindOf op.line = op.kind := by
  cases h with
  | @call name args hname _ =>
      obtain ⟨cs, hcs⟩ := exists_line_call hname args
      rw [hcs]
      rfl
  | expr he =>
      obtain ⟨c, cs, hchars, hc⟩ := he.exists_opener
      rw [line, hchars]
      exact kindOf_of_mem_openers hc cs
  | sleep | highlight | restore => rfl

/-- The line of a step does not begin like one of an import or of a definition. -/
theorem Legible.exists_head (h : op.Legible) :
    ∃ c cs, op.line = c :: cs ∧ c ∉ [' ', 'd', 'i'] := by
  cases h with
  | @call name args hname _ =>
      obtain ⟨cs, hcs⟩ := exists_line_call hname args
      exact ⟨_, _, hcs, by decide⟩
  | expr he =>
      obtain ⟨c, cs, hchars, hc⟩ := he.exists_opener
      have hopeners : ∀ c ∈ Expr.openers, c ∉ [' ', 'd', 'i'] :=
        Decimal.forall_mem_of_all (by decide)
      exact ⟨c, cs, hchars, hopeners c hc⟩
  | sleep => exact ⟨_, _, rfl, by decide⟩
  | highlight => exact ⟨_, _, rfl, by decide⟩
  | restore => exact ⟨_, _, rfl, by decide⟩

theorem word_stem {name : String} (h : Names.Stems "add_text" name) : Word name.toList :=
  h.word Names.word_addText

/-- The line of a step is one line. -/
theorem Legible.newline_notMem (h : op.Legible) : '\n' ∉ op.line := by
  cases h with
  | call hname hargs =>
      exact Expr.newline_notMem_call (word_stem hname) fun e he => (hargs e he).newline_notMem
  | expr he => exact he.newline_notMem
  | sleep he => simp [line, he.newline_notMem]
  | highlight k => simp [line, Value.quoted_ofKey, Key.newline_notMem_quoted]
  | restore k => simp [line, Value.quoted_ofKey, Key.newline_notMem_quoted]

theorem closes_nil : Expr.Closes [] := fun _ hc => nomatch hc

/-- **Two steps with the same line are the same.** -/
theorem Legible.akin_of_line (h : op.Legible) (h' : op'.Legible) (he : op.line = op'.line) :
    op.Akin op' := by
  have hkind : op.kind = op'.kind := by rw [← h.kindOf_line, he, h'.kindOf_line]
  have hid {j k : Key}
      (hq : (Value.ofKey j).quoted.toList ++ [')'] = (Value.ofKey k).quoted.toList ++ [')']) :
      j.Akin k := by
    rw [Value.quoted_ofKey, Value.quoted_ofKey] at hq
    have hstops : Stops [')'] := (Expr.closes_paren []).follows.stops
    exact (Key.quoted_append_inj hstops hstops hq).1
  cases h with
  | call hname hargs =>
      cases h' with
      | call hname' hargs' =>
          have hcalls := (Expr.chars_call_append_inj (word_stem hname) (word_stem hname')
            (fun e he => (hargs e he).unique.1) hargs hargs' (congrArg (· ++ []) he)).1
          cases hcalls
          exact .refl _
      | expr | sleep | highlight | restore => cases hkind
  | expr hl =>
      cases h' with
      | expr hl' =>
          rw [(hl.unique.1 hl' closes_nil closes_nil (congrArg (· ++ []) he)).1]
          exact .refl _
      | call | sleep | highlight | restore => cases hkind
  | sleep hl =>
      cases h' with
      | sleep hl' =>
          have htail := List.append_cancel_left (List.cons.inj (List.cons.inj he).2).2
          rw [(hl.unique.1 hl' (Expr.closes_paren []) (Expr.closes_paren []) htail).1]
          exact .refl _
      | call | expr | highlight | restore => cases hkind
  | highlight j =>
      cases h' with
      | highlight k => exact .highlight (hid (List.append_cancel_left (List.cons.inj he).2))
      | call | expr | sleep | restore => cases hkind
  | restore j =>
      cases h' with
      | restore k => exact .restore (hid (List.append_cancel_left (List.cons.inj he).2))
      | call | expr | sleep | highlight => cases hkind

end Op

end Blockwork
