import Blockwork.Proofs.Drafting
import Blockwork.Proofs.Replacing

/-!
# Requests for definitions

What a pass that asks for definitions is given (`Request.exists_allotted`).  Names are told apart
exactly as the names asked for are, none is reserved, and each new one is the first candidate that
was not in use before (`Allotted`).  What a draft knows of the requests so far (`Booked`) is kept by
each further one.
-/

namespace Blockwork

namespace Compile

/-- A request for a definition. -/
structure Request where
  wanted : String
  lines : List String
  run : List Value → Emit Value

/-- What the request asks for. -/
def Request.ask (q : Request) : Drafting String :=
  define (.text q.wanted) (.ok q.lines) q.run

/-- The definition that the request asks for, under a name. -/
def Request.answer (q : Request) (name : String) : Subroutine :=
  ⟨name, definitionText name q.lines, q.run⟩

/-- Requests with the names that they were given. -/
abbrev Grants := List (Request × String)

/-- Whether a grant is the first for its name, after the ones before it. -/
def Grants.Leads (grants before : Grants) (p : Request × String) : Prop :=
  before ++ [p] <+: grants ∧ ∀ q ∈ before, q.1.wanted ≠ p.1.wanted

/-- Whether a text is the lines with a name in each place that is kept for it. -/
def Fills (lines : List String) (name text : String) : Prop :=
  ∃ parts, "\n".intercalate lines = placeholder.intercalate parts ∧
    (∀ part ∈ parts, ¬ placeholder.toList <:+: part.toList) ∧ text = name.intercalate parts

/-- What grants and definitions have to be, of which some names are reserved. -/
structure Allotted (reserved : List Key) (grants : Grants) (definitions : List Subroutine) :
    Prop where
  /-- Requests get the same name exactly when they ask for the same one. -/
  same : ∀ p ∈ grants, ∀ q ∈ grants, p.2 = q.2 ↔ p.1.wanted = q.1.wanted
  unreserved : ∀ p ∈ grants, .text p.2 ∉ reserved
  /-- A new name is the first candidate that was not in use. -/
  next : ∀ before p, grants.Leads before p →
    Names.Next (reserved ++ before.map fun q => .text q.2) p.1.wanted p.2
  distinct : (definitions.map (·.name)).Nodup
  /-- The definitions are those that were asked for first. -/
  defined : ∀ s, s ∈ definitions ↔ ∃ before p, grants.Leads before p ∧
    s.name = p.2 ∧ s.run = p.1.run ∧ Fills p.1.lines p.2 s.text

end Compile

theorem Names.Next.congr {used used' : List Key} {name s : String} (h : Next used name s)
    (hk : ∀ k, k ∈ used ↔ k ∈ used') : Next used' name s := by
  obtain ⟨n, hn, hnew, hearlier⟩ := h
  exact ⟨n, hn, fun hm => hnew ((hk _).mpr hm), fun m hm => (hk _).mp (hearlier m hm)⟩

namespace Compile

variable {grants before : Grants} {p x : Request × String}

theorem Grants.Leads.mem (h : grants.Leads before p) : p ∈ grants :=
  h.1.subset (List.mem_append_right _ List.mem_cons_self)

/-- One more grant leads if its name was not asked for before. -/
theorem Grants.leads_concat : Leads (grants ++ [x]) before p ↔
    grants.Leads before p ∨ (before = grants ∧ p = x ∧ ∀ q ∈ grants, q.1.wanted ≠ x.1.wanted) := by
  unfold Leads
  rw [List.prefix_concat_iff]
  constructor
  · rintro ⟨he | hpre, hfree⟩
    · obtain ⟨rfl, hx⟩ := List.append_inj' he rfl
      obtain rfl := List.singleton_inj.mp hx
      exact .inr ⟨rfl, rfl, hfree⟩
    · exact .inl ⟨hpre, hfree⟩
  · rintro (⟨hpre, hfree⟩ | ⟨rfl, rfl, hfree⟩)
    · exact ⟨.inr hpre, hfree⟩
    · exact ⟨.inl rfl, hfree⟩

/-- Of the grants for a name one leads. -/
theorem Grants.exists_leads (hp : p ∈ grants) :
    ∃ before q, grants.Leads before q ∧ q.1.wanted = p.1.wanted := by
  induction grants using List.reverseRecOn generalizing p with
  | nil => cases hp
  | append_singleton grants x ih =>
      have hold (q : Request × String) (hq : q ∈ grants) :
          ∃ before r, Leads (grants ++ [x]) before r ∧ r.1.wanted = q.1.wanted := by
        obtain ⟨before, r, hr, hwanted⟩ := ih hq
        exact ⟨before, r, leads_concat.mpr (.inl hr), hwanted⟩
      rcases List.mem_append.mp hp with hp | hp
      · exact hold p hp
      · obtain rfl := List.mem_singleton.mp hp
        by_cases hfree : ∀ q ∈ grants, q.1.wanted ≠ p.1.wanted
        · exact ⟨grants, p, leads_concat.mpr (.inr ⟨rfl, rfl, hfree⟩), rfl⟩
        · push Not at hfree
          obtain ⟨q, hq, hwanted⟩ := hfree
          rw [← hwanted]
          exact hold q hq

theorem placeholder_toList : placeholder.toList = '\x7b' :: "FUNCTION_NAME\x7d".toList := by
  rw [placeholder]
  decide

/-- The text of a definition is the only one that fills its lines. -/
theorem fills_iff {lines : List String} {name text : String} :
    Fills lines name text ↔ text = definitionText name lines := by
  have hne : placeholder ≠ "" := by decide
  constructor
  · rintro ⟨parts, hlines, hfree, rfl⟩
    rw [← String.toList_inj, definitionText, toList_replace hne, hlines, String.toList_intercalate,
      String.toList_intercalate]
    rw [placeholder_toList] at hfree ⊢
    refine (replaceFrom_intercalate name.toList (by decide) fun cs hcs => ?_).symm
    obtain ⟨part, hp, rfl⟩ := List.mem_map.mp hcs
    exact hfree part hp
  · rintro rfl
    obtain ⟨parts, hlines, htext, -, hfree⟩ := exists_parts name.toList
      (fun he => hne (String.toList_inj.mp he)) ("\n".intercalate lines).toList
    have hjoin (sep : String) :
        (sep.intercalate (parts.map String.ofList)).toList = sep.toList.intercalate parts := by
      rw [String.toList_intercalate, List.map_map]
      simp [Function.comp_def]
    refine ⟨parts.map String.ofList, ?_, fun part hp => ?_, ?_⟩
    · rw [← String.toList_inj, hjoin, hlines]
    · obtain ⟨cs, hcs, rfl⟩ := List.mem_map.mp hp
      rw [String.toList_ofList]
      exact hfree cs hcs
    · rw [← String.toList_inj, hjoin, definitionText, toList_replace hne, htext]

/-- The definition that a request asks for is the one with its lines filled. -/
theorem Request.eq_answer_iff {q : Request} {name : String} {s : Subroutine} :
    s = q.answer name ↔ s.name = name ∧ s.run = q.run ∧ Fills q.lines name s.text := by
  obtain ⟨sname, text, run⟩ := s
  rw [fills_iff, Request.answer, Subroutine.mk.injEq]
  tauto

theorem Allotted.mem_iff {reserved : List Key} {definitions : List Subroutine}
    (h : Allotted reserved grants definitions) {s : Subroutine} :
    s ∈ definitions ↔ ∃ before p, grants.Leads before p ∧ s = p.1.answer p.2 := by
  rw [h.defined]
  simp only [Request.eq_answer_iff]

/-- What a draft knows of the grants so far. -/
structure Booked (reserved : List Key) (grants : Grants) (d : Draft) : Prop where
  used : ∀ k, k ∈ d.used ↔ k ∈ reserved ++ grants.map fun q => .text q.2
  granted : ∀ wanted name, Entries.get? d.granted (.text wanted) = some name ↔
    ∃ p ∈ grants, p.1.wanted = wanted ∧ p.2 = name
  allotted : Allotted reserved grants d.definitions

/-- At first nothing was asked for. -/
theorem Booked.nil (reserved : List Key) : Booked reserved [] { used := reserved } where
  used k := by simp
  granted wanted name := by simp [Entries.get?]
  allotted := {
    same := by simp
    unreserved := by simp
    next := fun before p hp => absurd hp.mem List.not_mem_nil
    distinct := List.nodup_nil
    defined := fun s => iff_of_false List.not_mem_nil fun ⟨_, _, hp, _⟩ =>
      absurd hp.mem List.not_mem_nil }

section

variable {reserved : List Key} {d : Draft} {q : Request} {name : String}

/-- A request for a name that was asked for before gets the same name. -/
theorem Booked.again (h : Booked reserved grants d)
    (hname : Entries.get? d.granted (.text q.wanted) = some name) :
    Booked reserved (grants ++ [(q, name)]) d := by
  obtain ⟨p, hp, hwanted, hpname⟩ := (h.granted _ _).mp hname
  have hleads (before : Grants) (r : Request × String) :
      Grants.Leads (grants ++ [(q, name)]) before r ↔ grants.Leads before r := by
    rw [Grants.leads_concat, or_iff_left]
    exact fun ⟨_, _, hfree⟩ => hfree p hp hwanted
  -- whatever is said of the new grant is said of the one before that asked for the same
  have hall {P : Request × String → Prop} (hP : ∀ r ∈ grants, P r)
      (hlike : P p → P (q, name)) : ∀ r ∈ grants ++ [(q, name)], P r := by
    intro r hr
    rcases List.mem_append.mp hr with hr | hr
    · exact hP r hr
    · obtain rfl := List.mem_singleton.mp hr
      exact hlike (hP p hp)
  refine ⟨fun k => ?_, fun wanted n => ?_, ?_, ?_, ?_, h.allotted.distinct, ?_⟩
  · rw [h.used, List.map_append, ← List.append_assoc, List.mem_append (s := reserved ++ _)]
    refine (or_iff_left_of_imp fun hk => ?_).symm
    obtain rfl := List.mem_singleton.mp hk
    exact List.mem_append_right _ (List.mem_map.mpr ⟨p, hp, by rw [hpname]⟩)
  · rw [h.granted]
    constructor
    · rintro ⟨r, hr, hrn⟩
      exact ⟨r, List.mem_append_left _ hr, hrn⟩
    · rintro ⟨r, hr, hrn⟩
      rcases List.mem_append.mp hr with hr | hr
      · exact ⟨r, hr, hrn⟩
      · obtain rfl := List.mem_singleton.mp hr
        exact ⟨p, hp, hwanted.trans hrn.1, hpname.trans hrn.2⟩
  · have hsame := h.allotted.same
    refine hall (fun r hr => hall (fun r' hr' => hsame r hr r' hr') fun hrp => ?_) fun hp' => ?_
    · change r.2 = name ↔ r.1.wanted = q.wanted
      rw [← hpname, ← hwanted]
      exact hrp
    · intro r hr
      change name = r.2 ↔ q.wanted = r.1.wanted
      rw [← hpname, ← hwanted]
      exact hp' r hr
  · exact hall h.allotted.unreserved fun hp' => by rw [← hpname]; exact hp'
  · exact fun before r hr => h.allotted.next before r ((hleads before r).mp hr)
  · intro s
    rw [h.allotted.defined]
    simp only [hleads]

/-- A grant for a name that was not asked for before adds a definition. -/
theorem Allotted.concat {definitions : List Subroutine} (h : Allotted reserved grants definitions)
    (hfree : ∀ p ∈ grants, p.1.wanted ≠ q.wanted) (hnew : ∀ p ∈ grants, p.2 ≠ name)
    (hnot : .text name ∉ reserved)
    (hnext : Names.Next (reserved ++ grants.map fun q => .text q.2) q.wanted name) :
    Allotted reserved (grants ++ [(q, name)]) (definitions ++ [q.answer name]) where
  same p hp p' hp' := by
    rcases List.mem_append.mp hp with hp | hp <;> rcases List.mem_append.mp hp' with hp' | hp'
    · exact h.same p hp p' hp'
    · obtain rfl := List.mem_singleton.mp hp'
      exact iff_of_false (hnew p hp) (hfree p hp)
    · obtain rfl := List.mem_singleton.mp hp
      exact iff_of_false (Ne.symm (hnew p' hp')) (Ne.symm (hfree p' hp'))
    · obtain rfl := List.mem_singleton.mp hp
      obtain rfl := List.mem_singleton.mp hp'
      exact iff_of_true rfl rfl
  unreserved := List.forall_mem_append.mpr ⟨h.unreserved, List.forall_mem_singleton.mpr hnot⟩
  next before p hp := by
    rcases Grants.leads_concat.mp hp with hp | ⟨rfl, rfl, -⟩
    · exact h.next before p hp
    · exact hnext
  distinct := by
    rw [List.map_append, List.map_singleton, ← List.concat_eq_append]
    refine h.distinct.concat fun hmem => ?_
    obtain ⟨s, hs, he⟩ := List.mem_map.mp hmem
    obtain ⟨_, p, hp, hname, -⟩ := (h.defined s).mp hs
    exact hnew p hp.mem (hname.symm.trans he)
  defined s := by
    rw [List.mem_append, h.defined, List.mem_singleton, Request.eq_answer_iff]
    constructor
    · rintro (⟨before, p, hp, hs⟩ | hs)
      · exact ⟨before, p, Grants.leads_concat.mpr (.inl hp), hs⟩
      · exact ⟨grants, (q, name), Grants.leads_concat.mpr (.inr ⟨rfl, rfl, hfree⟩), hs⟩
    · rintro ⟨before, p, hp, hs⟩
      rcases Grants.leads_concat.mp hp with hp | ⟨rfl, rfl, -⟩
      · exact .inl ⟨before, p, hp, hs⟩
      · exact .inr hs

/-- What a draft has granted once it has granted one more name. -/
theorem Booked.granted_grant (h : Booked reserved grants d)
    (hnone : Entries.get? d.granted (.text q.wanted) = none) (wanted n : String) :
    Entries.get? (d.grant (.text q.wanted) (q.answer name)).granted (.text wanted) = some n ↔
      ∃ p ∈ grants ++ [(q, name)], p.1.wanted = wanted ∧ p.2 = n := by
  rw [Draft.get?_granted]
  constructor
  · intro hn
    cases hold : Entries.get? d.granted (.text wanted) with
    | some m =>
        rw [hold, Option.some_or] at hn
        obtain ⟨p, hp, hpn⟩ := (h.granted _ _).mp (hold.trans hn)
        exact ⟨p, List.mem_append_left _ hp, hpn⟩
    | none =>
        rw [hold, Option.none_or] at hn
        split at hn
        · rename_i he
          exact ⟨_, List.mem_append_right _ List.mem_cons_self,
            Key.text.inj (Key.beq_text_iff.mp he), Option.some.inj hn⟩
        · cases hn
  · rintro ⟨p, hp, rfl, rfl⟩
    rcases List.mem_append.mp hp with hp | hp
    · rw [(h.granted _ _).mpr ⟨p, hp, rfl, rfl⟩, Option.some_or]
    · obtain rfl := List.mem_singleton.mp hp
      rw [hnone, if_pos BEq.rfl, Option.none_or]
      rfl

/-- A request for a name that was not asked for before gets the next one. -/
theorem Booked.grant (h : Booked reserved grants d)
    (hnone : Entries.get? d.granted (.text q.wanted) = none)
    (hnext : Names.Next d.used q.wanted name) :
    Booked reserved (grants ++ [(q, name)]) (d.grant (.text q.wanted) (q.answer name)) where
  used k := by
    change k ∈ Key.text name :: d.used ↔ _
    rw [List.mem_cons, h.used]
    simp only [List.mem_append, List.map_append, List.map_cons, List.map_nil, List.mem_singleton]
    tauto
  granted := h.granted_grant hnone
  allotted := by
    obtain ⟨hnot, hnew⟩ : Key.text name ∉ reserved ∧ ∀ p ∈ grants, p.2 ≠ name := by
      obtain ⟨_, _, hn, _⟩ := hnext
      rw [h.used, List.mem_append, not_or] at hn
      exact ⟨hn.1, fun p hp he => hn.2 (List.mem_map.mpr ⟨p, hp, by rw [he]⟩)⟩
    have hfree : ∀ p ∈ grants, p.1.wanted ≠ q.wanted := fun p hp he => by
      have := (h.granted q.wanted p.2).mpr ⟨p, hp, he, rfl⟩
      rw [hnone] at this
      cases this
    exact h.allotted.concat hfree hnew hnot (hnext.congr h.used)

end

/-- **A request** is given a name. -/
theorem Booked.exists_ask {reserved : List Key} {d : Draft} (h : Booked reserved grants d)
    (q : Request) :
    ∃ name d', q.ask d = .ok name d' ∧ Booked reserved (grants ++ [(q, name)]) d' := by
  refine Ends.exists_ok ?_
  unfold Request.ask define
  refine Ends.bind (Ends.get ?_)
  split
  · rename_i name hname
    exact Ends.pure (h.again hname)
  · rename_i hnone
    obtain ⟨name, hname, hnext⟩ := Names.exists_next d.used q.wanted
    rw [hname]
    refine Ends.bind (Ends.pure (Ends.bind (Ends.pure (Ends.bind (Ends.set (Ends.pure ?_))))))
    exact h.grant hnone hnext

/-- **What requests are given**: for every list of reserved names and all requests, one after the
other. -/
theorem Request.exists_allotted (reserved : List Key) (requests : List Request) :
    ∃ names d, requests.mapM Request.ask { used := reserved } = .ok names d ∧
      names.length = requests.length ∧ Allotted reserved (requests.zip names) d.definitions := by
  suffices h : ∃ names d, requests.mapM Request.ask { used := reserved } = .ok names d ∧
      names.length = requests.length ∧ Booked reserved (requests.zip names) d by
    obtain ⟨names, d, hrun, hlen, hbooked⟩ := h
    exact ⟨names, d, hrun, hlen, hbooked.allotted⟩
  induction requests using List.reverseRecOn with
  | nil => exact ⟨[], _, rfl, rfl, .nil reserved⟩
  | append_singleton requests q ih =>
      obtain ⟨names, d, hrun, hlen, hbooked⟩ := ih
      obtain ⟨name, d', hask, hbooked'⟩ := hbooked.exists_ask q
      refine ⟨names ++ [name], d', ?_, by simp [hlen], ?_⟩
      · rw [List.mapM_append, List.mapM_cons, List.mapM_nil]
        simp only [bind, EStateM.bind, hrun, hask]
        rfl
      · rw [List.zip_append hlen.symm]
        exact hbooked'

end Compile

end Blockwork
