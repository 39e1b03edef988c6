import Blockwork.Colour.Shade
import Blockwork.Program.Expr
import Blockwork.Proofs.Outcome

/-!
# Faults

A run ends with an error of its own, a fault, or because a newer one supersedes it, and what is done
after the one is not done after the other.  Only the clock tells that a run is superseded: an
expression fails by faults, as long as the definitions in it do (`Expr.ends_eval_honest`), and so
does the lightening of a colour (`Shade.faults_lightenText`).
-/

namespace Blockwork

/-- Whether a computation fails by errors of a kind only. -/
def FailsBy {ε α : Type} (bad : ε → Prop) (r : Except ε α) : Prop := ∀ e, r = .error e → bad e

namespace FailsBy

variable {ε α β : Type} {bad : ε → Prop} {r : Except ε α}

theorem ok (a : α) : FailsBy bad (.ok a : Except ε α) := fun _ h => nomatch h

theorem error {e : ε} (h : bad e) : FailsBy bad (.error e : Except ε α) :=
  fun _ he => Except.error.inj he ▸ h

theorem bind {f : α → Except ε β} (h : FailsBy bad r) (k : ∀ a, FailsBy bad (f a)) :
    FailsBy bad (r >>= f) := by
  cases r with
  | ok a => exact k a
  | error e => exact error (h e rfl)

theorem bind_ok {a : α} {f : α → Except ε β} (hr : r = .ok a) (h : FailsBy bad (f a)) :
    FailsBy bad (r >>= f) := hr ▸ h

theorem mapM {f : α → Except ε β} {xs : List α} (h : ∀ x ∈ xs, FailsBy bad (f x)) :
    FailsBy bad (xs.mapM f) := by
  induction xs with
  | nil => exact ok _
  | cons x xs ih =>
      rw [List.forall_mem_cons] at h
      rw [List.mapM_cons]
      exact h.1.bind fun _ => (ih h.2).bind fun _ => ok _

theorem map (h : FailsBy bad r) (f : α → β) : FailsBy bad (f <$> r) := by
  cases r with
  | ok a => exact ok (f a)
  | error e => exact error (h e rfl)

end FailsBy

/-- Whether an error is a fault, and does not say that a run is superseded. -/
def Error.isFault : Error → Bool
  | .superseded .. => false
  | _ => true

/-- Whether a computation fails by faults only. -/
def Faults {α : Type} (r : Except Error α) : Prop := FailsBy (·.isFault = true) r

/-- Whether the errors by which calculations fail are of a kind. -/
structure Error.Calculates (bad : Error → Prop) : Prop where
  overflow : bad (.failure .overflow)
  badValue : bad (.failure .badValue)
  wrongType : bad (.failure .wrongType)

theorem Error.Calculates.faults : Calculates (·.isFault = true) := ⟨rfl, rfl, rfl⟩

/-! ### Numbers -/

section

variable {bad : Error → Prop} (hb : Error.Calculates bad)

include hb

namespace Number

theorem failsBy_toFloat : ∀ n : Number, FailsBy bad n.toFloat
  | .int i => by
    change FailsBy bad (ofInt i)
    unfold ofInt
    split
    · exact FailsBy.ok _
    · exact FailsBy.error hb.overflow
  | .float x => FailsBy.ok x

theorem failsBy_lift (exact' : Int → Int → Int) (rounded : Binary64 → Binary64 → Binary64)
    (a b : Number) : FailsBy bad (lift exact' rounded a b) := by
  unfold lift
  split
  · exact FailsBy.ok _
  · exact (failsBy_toFloat hb a).bind fun x => (failsBy_toFloat hb b).bind fun y => FailsBy.ok _

theorem failsBy_div (a b : Number) : FailsBy bad (a.div b) := by
  unfold div
  split
  · split
    · exact FailsBy.error hb.overflow
    · exact FailsBy.ok _
  · exact (failsBy_toFloat hb a).bind fun x => (failsBy_toFloat hb b).bind fun y => FailsBy.ok _

theorem failsBy_wholeBy (part : Binary64 → Option Int) (n : Number) :
    FailsBy bad (wholeBy part n) := by
  unfold wholeBy
  split
  · exact FailsBy.ok _
  · split
    · exact FailsBy.ok _
    · exact FailsBy.error hb.badValue
    · exact FailsBy.error hb.overflow

end Number

theorem Value.failsBy_toNumber (v : Value) : FailsBy bad v.toNumber := by
  unfold toNumber
  split
  · exact FailsBy.ok _
  · exact FailsBy.error hb.wrongType

theorem Value.failsBy_toFloat (v : Value) : FailsBy bad v.toFloat := by
  unfold toFloat
  split
  · split
    · exact FailsBy.ok _
    · exact FailsBy.error hb.badValue
  · exact (v.failsBy_toNumber hb).bind (Number.failsBy_toFloat hb)

theorem Value.failsBy_toKey (v : Value) : FailsBy bad v.toKey := by
  unfold toKey
  split
  · exact FailsBy.ok _
  · exact FailsBy.error hb.wrongType

end

/-! ### Colours -/

namespace Rgb

theorem faults_dimmed (v s : Number) : Faults (dimmed v s) :=
  (Number.failsBy_lift .faults _ _ _ _).bind fun _ =>
    (Number.failsBy_lift .faults _ _ _ _).bind fun p => Number.failsBy_wholeBy .faults _ p

theorem faults_dimmable (v : Value) (s : Number) : Faults (dimmable v s) := by
  refine (Number.failsBy_lift .faults _ _ _ _).bind fun _ => ?_
  split
  · exact FailsBy.error rfl
  · exact FailsBy.error rfl
  · exact v.failsBy_toNumber .faults

theorem faults_ofHsv (h s v : Value) : Faults (ofHsv h s v) := by
  unfold ofHsv
  split
  · refine (v.failsBy_toNumber .faults).bind fun n => ?_
    exact (Number.failsBy_wholeBy .faults _ n).bind fun g => FailsBy.ok _
  · refine (h.failsBy_toNumber .faults).bind fun turns => ?_
    refine (Number.failsBy_div .faults _ _).bind fun turns => ?_
    refine (Number.failsBy_wholeBy .faults _ _).bind fun sector => ?_
    refine (s.failsBy_toNumber .faults).bind fun s => (faults_dimmable v s).bind fun v => ?_
    refine (Number.failsBy_lift .faults _ _ _ _).bind fun part => ?_
    refine (faults_dimmed v s).bind fun p => (Number.failsBy_lift .faults _ _ _ _).bind fun q => ?_
    refine (faults_dimmed v q).bind fun q => (Number.failsBy_lift .faults _ _ _ _).bind fun t => ?_
    refine (Number.failsBy_lift .faults _ _ _ _).bind fun t => (faults_dimmed v t).bind fun t => ?_
    exact (Number.failsBy_wholeBy .faults _ _).bind fun top => FailsBy.ok _

end Rgb

namespace Shade

theorem faults_raise (delta : Value) (c : Fin 256) : Faults (raise delta c) :=
  (delta.failsBy_toNumber .faults).bind fun _ => (Number.failsBy_lift .faults _ _ _ _).bind fun _ =>
    FailsBy.ok _

theorem faults_raiseAll (delta : Value) (c : Rgb) : Faults (raiseAll delta c) := by
  refine (faults_raise delta _).bind fun r => (faults_raise delta _).bind fun g => ?_
  refine (faults_raise delta _).bind fun b => (Number.failsBy_wholeBy .faults _ r).bind fun r => ?_
  refine (Number.failsBy_wholeBy .faults _ g).bind fun g => ?_
  exact (Number.failsBy_wholeBy .faults _ b).bind fun b => FailsBy.ok _

/-- A colour that cannot be lightened is a fault. -/
theorem faults_lightenText (s : Shade) (colour : Value) : Faults (s.lightenText colour) := by
  have read : Faults (Rgb.ofValue colour) := by
    unfold Rgb.ofValue
    split
    · exact FailsBy.ok _
    · exact FailsBy.error rfl
  refine read.bind fun c => FailsBy.bind ?_ fun c => FailsBy.ok _
  unfold lighten
  split
  · exact faults_raiseAll s.delta c
  · exact Rgb.faults_ofHsv _ _ _

end Shade

/-! ### Expressions -/

/-- Whether a definition fails by faults only. -/
def Subroutine.Honest (d : Subroutine) : Prop :=
  ∀ values lines, Ends (d.run values) lines (fun _ _ => True) fun e _ => e.isFault = true

/-- Whether a definition adds to the lines and takes nothing from them. -/
def Subroutine.Appends (d : Subroutine) : Prop :=
  ∀ values lines, lines.toList <+: (stateAfter (d.run values) lines).toList

/-- What definitions do to the lines, and how they fail, with what an expression adds to that. -/
structure Subroutine.Conduct (definitions : List Subroutine) (R : Array Line → Array Line → Prop)
    (bad : Error → Prop) : Prop where
  refl : ∀ lines, R lines lines
  trans : ∀ {l m n}, R l m → R m n → R l n
  wrong : bad (.failure .wrongType)
  unbound : ∀ name, bad (.unboundName name)
  run : ∀ d ∈ definitions, ∀ values lines,
    Ends (d.run values) lines (fun _ l => R lines l) fun e l => R lines l ∧ bad e

namespace Expr

section

variable {definitions : List Subroutine} {R : Array Line → Array Line → Prop} {bad : Error → Prop}

theorem ends_invoke (h : Subroutine.Conduct definitions R bad) (name : Value) (values : List Value)
    (lines : Array Line) : Ends (invoke definitions name values) lines (fun _ l => R lines l)
      fun e l => R lines l ∧ bad e := by
  unfold invoke
  split
  · exact Ends.throw ⟨h.refl lines, h.wrong⟩
  · split
    · rename_i d hd
      exact h.run d (List.mem_of_find?_eq_some hd) values lines
    · exact Ends.throw ⟨h.refl lines, h.unbound _⟩

mutual

/-- What the definitions do to the lines, and how they fail, is what an expression does and how it
fails. -/
theorem ends_eval (h : Subroutine.Conduct definitions R bad) : ∀ (e : Expr) (lines : Array Line),
    Ends (eval definitions e) lines (fun _ l => R lines l) fun x l => R lines l ∧ bad x
  | .literal v, lines => Ends.pure (h.refl lines)
  | .concat l r, lines => by
    refine Ends.bind ((ends_eval h l lines).mono (fun _ m hm => ?_) fun _ _ hb => hb)
    refine Ends.bind ((ends_eval h r m).mono (fun _ n hn => ?_) fun _ n hn => ?_)
    · exact Ends.pure (h.trans hm hn)
    · exact ⟨h.trans hm hn.1, hn.2⟩
  | .call name args, lines => by
    refine Ends.bind ((ends_evalAll h args lines).mono (fun values m hm => ?_) fun _ _ hb => hb)
    exact (ends_invoke h name values m).mono (fun _ n hn => h.trans hm hn)
      fun _ n hn => ⟨h.trans hm hn.1, hn.2⟩
  | .group e, lines => ends_eval h e lines

theorem ends_evalAll (h : Subroutine.Conduct definitions R bad) :
    ∀ (es : List Expr) (lines : Array Line), Ends (evalAll definitions es) lines
      (fun _ l => R lines l) fun x l => R lines l ∧ bad x
  | [], lines => Ends.pure (h.refl lines)
  | e :: es, lines => by
    refine Ends.bind ((ends_eval h e lines).mono (fun _ m hm => ?_) fun _ _ hb => hb)
    refine Ends.bind ((ends_evalAll h es m).mono (fun _ n hn => ?_) fun _ n hn => ?_)
    · exact Ends.pure (h.trans hm hn)
    · exact ⟨h.trans hm hn.1, hn.2⟩

end

end

variable {definitions : List Subroutine}

/-- An expression of honest definitions fails by faults only. -/
theorem ends_eval_honest (h : ∀ d ∈ definitions, d.Honest) (e : Expr) (lines : Array Line) :
    Ends (eval definitions e) lines (fun _ _ => True) fun x _ => x.isFault = true := by
  have conduct : Subroutine.Conduct definitions (fun _ _ => True) (·.isFault = true) := by
    refine ⟨fun _ => trivial, fun _ _ => trivial, rfl, fun _ => rfl, fun d hd values lines => ?_⟩
    exact (h d hd values lines).mono (fun _ _ h => h) fun _ _ h => ⟨trivial, h⟩
  exact (ends_eval conduct e lines).mono (fun _ _ h => h) fun _ _ h => h.2

/-- An expression of definitions that add to the lines adds to the lines. -/
theorem prefix_eval (h : ∀ d ∈ definitions, d.Appends) (e : Expr) (lines : Array Line) :
    lines.toList <+: (stateAfter (eval definitions e) lines).toList := by
  have conduct : Subroutine.Conduct definitions (fun l m : Array Line => l.toList <+: m.toList)
      fun _ => True := by
    refine ⟨fun _ => List.prefix_rfl, fun h k => h.trans k, trivial, fun _ => trivial, ?_⟩
    intro d hd values lines
    have hrun := Ends.of_stateAfter (P := fun l : Array Line => lines.toList <+: l.toList)
      (h d hd values lines)
    exact hrun.mono (fun _ _ h => h) fun _ _ h => ⟨h, trivial⟩
  exact ((ends_eval conduct e lines).mono (fun _ _ h => h) fun _ _ h => h.1).stateAfter
    (P := fun l : Array Line => lines.toList <+: l.toList)

end Expr

end Blockwork
