import Blockwork.Compile.Stock
import Blockwork.Proofs.Naming
import Blockwork.Proofs.Outcome

/-!
# Drafts

How a program grows while it is compiled.  A draft is `Fine` when each definition that was asked for
is there under a name of its own; compiling a part only adds to it (`Draft.Grows`).  So what a part
of a program does can be said of all definitions that serve the draft in the end
(`Compile.Computes`), and the parts are put together by one rule for each construct.
-/

namespace Blockwork

/-- What the stock definition asked for under a name does. -/
def Compile.sharedRun (wanted : Key) : List Value → Emit Value :=
  if wanted = .text "add_text" then Compile.addTextRun else Compile.colourRgbRun

/-- A program is what its chains are compiled to, with what the draft has in the end. -/
theorem Compile.exists_chains_of_program {t : Compiler} {w : Workspace} {p : Program}
    (hp : t.program w = .ok p) : ∃ fss d, chains t w { used := t.reserved } = .ok fss d ∧
      p = { chains := fss, definitions := d.definitions, imports := d.imports } := by
  unfold Compiler.program at hp
  split at hp
  · rename_i fss d hd
    exact ⟨fss, d, hd, (Except.ok.inj hp).symm⟩
  · cases hp

namespace Draft

/-- Whether each definition that was asked for is there, and no two have the same name. -/
structure Fine (d : Draft) : Prop where
  distinct : (d.definitions.map (·.name)).Nodup
  used : ∀ s ∈ d.definitions, Key.text s.name ∈ d.used
  granted : ∀ k name, Entries.get? d.granted k = some name →
    ∃ s ∈ d.definitions, s.name = name ∧ s.run = Compile.sharedRun k

/-- Whether all that was asked for in one draft has the same name in another one. -/
def Grows (d d' : Draft) : Prop :=
  ∀ k name, Entries.get? d.granted k = some name → Entries.get? d'.granted k = some name

/-- Whether definitions hold all that was asked for. -/
def Serves (d : Draft) (definitions : List Subroutine) : Prop :=
  ∀ k name, Entries.get? d.granted k = some name →
    ∃ s, definitions.find? (fun s => Key.text name == .text s.name) = some s ∧
      s.run = Compile.sharedRun k

variable {d d' d'' : Draft} {definitions : List Subroutine}

theorem Grows.refl (d : Draft) : d.Grows d := fun _ _ h => h

theorem Grows.trans (h : d.Grows d') (k : d'.Grows d'') : d.Grows d'' :=
  fun _ _ hn => k _ _ (h _ _ hn)

theorem Serves.of_grows (h : d'.Serves definitions) (hd : d.Grows d') : d.Serves definitions :=
  fun k name hn => h k name (hd k name hn)

/-- The definitions of a draft serve it. -/
theorem Fine.serves (h : d.Fine) : d.Serves d.definitions := by
  intro k name hn
  obtain ⟨s, hs, rfl, hrun⟩ := h.granted k name hn
  refine ⟨s, ?_, hrun⟩
  have hsome : (d.definitions.find? fun s' => Key.text s.name == .text s'.name).isSome :=
    List.find?_isSome.mpr ⟨s, hs, BEq.rfl⟩
  obtain ⟨s', hs'⟩ := Option.isSome_iff_exists.mp hsome
  have hname : s'.name = s.name :=
    (Key.text.inj (Key.text_beq_iff.mp (List.find?_some hs' :)))
  rw [hs', List.inj_on_of_nodup_map h.distinct (List.mem_of_find?_eq_some hs') hs hname]

/-- The draft with one more definition, which was asked for under a name. -/
def grant (d : Draft) (k : Key) (s : Subroutine) : Draft :=
  { d with
    used := .text s.name :: d.used
    granted := d.granted ++ [(k, s.name)]
    definitions := d.definitions ++ [s] }

theorem get?_granted (d : Draft) (j k : Key) (s : Subroutine) :
    Entries.get? (d.grant k s).granted j =
      (Entries.get? d.granted j).or (if k == j then some s.name else none) := by
  unfold grant Entries.get?
  rw [List.find?_append, Option.map_or, List.find?_singleton]
  split <;> rfl

theorem get?_grant {k : Key} {s : Subroutine} (h : Entries.get? d.granted k = none) :
    Entries.get? (d.grant k s).granted k = some s.name := by
  rw [get?_granted, h, if_pos BEq.rfl, Option.none_or]

theorem grows_grant (d : Draft) (k : Key) (s : Subroutine) : d.Grows (d.grant k s) := by
  intro j name hn
  rw [get?_granted, hn, Option.some_or]

theorem Fine.grant (h : d.Fine) {wanted : String} {s : Subroutine}
    (hnew : ∀ s' ∈ d.definitions, s'.name ≠ s.name)
    (hrun : s.run = Compile.sharedRun (.text wanted)) : (d.grant (.text wanted) s).Fine where
  distinct := by
    change ((d.definitions ++ [s]).map (·.name)).Nodup
    rw [List.map_append, List.nodup_append]
    refine ⟨h.distinct, List.nodup_singleton _, ?_⟩
    intro n hn m hm
    obtain ⟨s', hs', rfl⟩ := List.mem_map.mp hn
    obtain rfl := List.mem_singleton.mp hm
    exact hnew s' hs'
  used s' hs' := by
    rcases List.mem_append.mp hs' with hs' | hs'
    · exact List.mem_cons_of_mem _ (h.used s' hs')
    · obtain rfl := List.mem_singleton.mp hs'
      exact List.mem_cons_self
  granted k name hn := by
    rw [get?_granted] at hn
    cases hk : Entries.get? d.granted k with
    | some n =>
        rw [hk, Option.some_or] at hn
        obtain ⟨s', hs', hname, hrun'⟩ := h.granted k name (hk.trans hn)
        exact ⟨s', List.mem_append_left _ hs', hname, hrun'⟩
    | none =>
        rw [hk, Option.none_or] at hn
        split at hn
        · rename_i hwanted
          obtain rfl := Key.text_beq_iff.mp hwanted
          exact ⟨s, List.mem_append_right _ List.mem_cons_self, Option.some.inj hn, hrun⟩
        · cases hn

end Draft

namespace Compile

variable {α β : Type}

/-- Whether a part of a compilation has an answer `a` with `A a`, and leaves a draft such that
`P a definitions` holds of all definitions that serve it. -/
def Computes (m : Drafting α) (A : α → Prop) (P : α → List Subroutine → Prop) : Prop :=
  ∀ d : Draft, d.Fine → Ends m d (fun a d' => d'.Fine ∧ d.Grows d' ∧ A a ∧
    ∀ definitions, d'.Serves definitions → P a definitions) fun _ _ => False

namespace Computes

variable {m : Drafting α} {A : α → Prop} {P : α → List Subroutine → Prop}

theorem pure {a : α} (ha : A a) (hp : ∀ definitions, P a definitions) :
    Computes (pure a) A P :=
  fun d hd => Ends.pure ⟨hd, .refl d, ha, fun definitions _ => hp definitions⟩

theorem ofExcept {r : Except Error α} {a : α} (hr : r = .ok a) (ha : A a)
    (hp : ∀ definitions, P a definitions) : Computes (ofExcept r) A P := by
  rw [hr]
  exact Computes.pure ha hp

theorem bind {f : α → Drafting β} {B : β → Prop} {Q : β → List Subroutine → Prop}
    (h : Computes m A P) (k : ∀ a, A a → Computes (f a) B fun b definitions =>
      P a definitions → Q b definitions) : Computes (m >>= f) B Q := by
  intro d hd
  refine Ends.bind ((h d hd).mono (fun a d' ha => ?_) fun _ _ he => he)
  obtain ⟨hd', hgrows, hA, hP⟩ := ha
  refine (k a hA d' hd').mono (fun b d'' hb => ?_) fun _ _ he => he
  obtain ⟨hd'', hgrows', hB, hQ⟩ := hb
  exact ⟨hd'', hgrows.trans hgrows', hB, fun definitions hs =>
    hQ definitions hs (hP definitions (hs.of_grows hgrows'))⟩

theorem bind_ofExcept {r : Except Error α} {a : α} (hr : r = .ok a) {f : α → Drafting β}
    {B : β → Prop} {Q : β → List Subroutine → Prop} (h : Computes (f a) B Q) :
    Computes (Compile.ofExcept r >>= f) B Q := by
  rw [hr]
  exact h

theorem require (statement : Value) :
    Computes (require statement) (fun _ => True) fun _ _ => True := by
  intro d hd
  refine Ends.modify ?_
  split
  · exact ⟨hd, .refl d, trivial, fun _ _ => trivial⟩
  · exact ⟨⟨hd.distinct, hd.used, hd.granted⟩, .refl d, trivial, fun _ _ => trivial⟩

end Computes

/-- A definition that is asked for is found under the name that it is given. -/
theorem Computes.define (wanted : String) {lines : List String} :
    Computes (define (.text wanted) (.ok lines) (sharedRun (.text wanted))) (fun _ => True)
      fun name definitions => ∃ s, definitions.find? (fun s => Key.text name == .text s.name) =
        some s ∧ s.run = sharedRun (.text wanted) := by
  intro d hd
  unfold Compile.define
  refine Ends.bind (Ends.get ?_)
  split
  · rename_i name hname
    exact Ends.pure ⟨hd, .refl d, trivial, fun definitions hs => hs _ _ hname⟩
  · rename_i hnone
    obtain ⟨name, hname, hnew⟩ := Names.exists_distinct d.used wanted
    have hunused : ∀ s ∈ d.definitions, s.name ≠ name := fun s hs he => by
      have hmem := hd.used s hs
      rw [he] at hmem
      rw [List.contains_eq_any_beq, List.any_eq_false] at hnew
      exact hnew _ hmem BEq.rfl
    rw [hname]
    refine Ends.bind (Ends.pure (Ends.bind (Ends.pure (Ends.bind (Ends.set (Ends.pure ?_))))))
    let s : Subroutine := ⟨name, definitionText name lines, sharedRun (.text wanted)⟩
    exact ⟨hd.grant (s := s) hunused rfl, Draft.grows_grant d (.text wanted) s, trivial,
      fun definitions hs => hs _ _ (Draft.get?_grant (s := s) hnone)⟩

end Compile

end Blockwork
