import Mathlib.Data.Finset.Card
import Mathlib.Data.Finset.Dedup
import Mathlib.Logic.Relation
import Blockwork.Proofs.Outcome
import Blockwork.Workspace.Audit

/-!
# Searches for cycles

A search for cycles answers that there is one just when a block is reached from itself along links
(`Workspace.Cyclic`), be the links as they may (`Workspace.hasCycle_exact`).  What the search has
marked as finished is closed under links and has no cycle (`Marks.Sealed`); what is on the way leads
to where the search is, so that a link back to it closes a cycle.  A step further down takes one
more block from those that are not marked, so that the search is never cut short by the number of
steps it is given.

The search is the same as a loop that keeps what is on the way by itself (`Search.turn`): the loop
comes to an end, with the same answer (`Workspace.halts_hasCycle`).
-/

namespace Blockwork.Workspace

open Relation (TransGen)

variable {w : Workspace}

/-! ### Cycles -/

/-- Whether a block links to another one, through a socket or as the next one; blocks are told apart
by what their keys name.  A missing block links to none. -/
inductive Links (w : Workspace) : Key.Name → Key.Name → Prop where
  | input {k s j : Key} {b : Block} {t : Value} :
      w.find? k = some b → (s, t) ∈ b.inputs → t.toKey = .ok j → Links w k.name j.name
  | next {k j : Key} {b : Block} :
      w.find? k = some b → b.next.isTruthy = true → b.next.toKey = .ok j → Links w k.name j.name

/-- Whether a block is reached from itself along links. -/
def Cyclic (w : Workspace) : Prop := ∃ a, TransGen w.Links a a

theorem mem_targetsOf {k : Key} {t : Value} :
    t ∈ w.targetsOf k ↔ ∃ b, w.find? k = some b ∧ t ∈ b.targets := by
  unfold targetsOf
  cases w.find? k <;> simp

theorem links_of_mem {k j : Key} {t : Value} (ht : t ∈ w.targetsOf k) (hj : t.toKey = .ok j) :
    w.Links k.name j.name := by
  obtain ⟨b, hb, ht⟩ := mem_targetsOf.mp ht
  rcases List.mem_append.mp ht with ht | ht
  · obtain ⟨e, he, rfl⟩ := List.mem_map.mp ht
    exact .input hb he hj
  · split at ht
    · rename_i hnext
      obtain rfl := List.mem_singleton.mp ht
      exact .next hb hnext hj
    · cases ht

theorem exists_of_links {k : Key} {a : Key.Name} (h : w.Links k.name a) :
    ∃ t j, t ∈ w.targetsOf k ∧ t.toKey = .ok j ∧ j.name = a := by
  -- the link is one of a block under a key that names the same
  generalize hn : k.name = n at h
  cases h with
  | @input k' s j b t hb ht hj =>
      rw [← show w.find? k = w.find? k' from w.table.find?_congr ((Key.beq_iff_name ..).2 hn)] at hb
      exact ⟨t, j, mem_targetsOf.mpr ⟨b, hb, List.mem_append_left _ (List.mem_map_of_mem ht)⟩, hj,
        rfl⟩
  | @next k' j b hb hnext hj =>
      rw [← show w.find? k = w.find? k' from w.table.find?_congr ((Key.beq_iff_name ..).2 hn)] at hb
      refine ⟨b.next, j, mem_targetsOf.mpr ⟨b, hb, List.mem_append_right _ ?_⟩, hj, rfl⟩
      simp [hnext]

theorem exists_of_links_name {a b : Key.Name} (h : w.Links a b) :
    ∃ k c, k.name = a ∧ w.find? k = some c := by
  cases h with
  | input hb => exact ⟨_, _, rfl, hb⟩
  | next hb => exact ⟨_, _, rfl, hb⟩

/-- A block stands under a key that names what it is found by. -/
theorem exists_entry_of_find? {k : Key} {b : Block} (h : w.find? k = some b) :
    ∃ e ∈ w.entries, e.1.name = k.name := by
  obtain ⟨j, hj, hjk⟩ := Entries.exists_mem_of_get? ((Table.find?_eq _ _).symm.trans h)
  exact ⟨_, hj, (Key.beq_iff_name ..).mp hjk⟩

/-! ### Marks -/

namespace Marks

variable {m m' m'' : Marks}

/-- Whether what is marked as finished leads to nothing else, and has no cycle. -/
structure Sealed (w : Workspace) (m : Marks) : Prop where
  closed : ∀ a b : Key.Name, m[a]? = some true → w.Links a b → m[b]? = some true
  acyclic : ∀ a : Key.Name, m[a]? = some true → ¬ TransGen w.Links a a

/-- Whether a search has come further, and is on the same way again. -/
structure Further (m m' : Marks) : Prop where
  finished : ∀ a : Key.Name, m[a]? = some true → m'[a]? = some true
  way : ∀ a : Key.Name, m'[a]? = some false ↔ m[a]? = some false

theorem Further.refl : Further m m := ⟨fun _ h => h, fun _ => .rfl⟩

theorem Further.trans (h : Further m m') (h' : Further m' m'') : Further m m'' :=
  ⟨fun a ha => h'.finished a (h.finished a ha), fun a => (h'.way a).trans (h.way a)⟩

theorem sealed_empty : Sealed w ∅ where
  closed a b h := by simp at h
  acyclic a h := by simp at h

theorem Sealed.reaches {a b : Key.Name} (h : Sealed w m) (ha : m[a]? = some true)
    (hab : TransGen w.Links a b) : m[b]? = some true := by
  induction hab with
  | single hl => exact h.closed _ _ ha hl
  | tail _ hl ih => exact h.closed _ _ ih hl

theorem Sealed.insert_false {a : Key.Name} (h : Sealed w m) (ha : m[a]? = none) :
    Sealed w (m.insert a false) := by
  have back (b : Key.Name) (hb : (m.insert a false)[b]? = some true) : m[b]? = some true := by
    rw [Std.HashMap.getElem?_insert] at hb
    split at hb
    · cases hb
    · exact hb
  refine ⟨fun b c hb hbc => ?_, fun b hb => h.acyclic b (back b hb)⟩
  have hc := h.closed b c (back b hb) hbc
  rw [Std.HashMap.getElem?_insert]
  split
  · rename_i hac
    obtain rfl := eq_of_beq hac
    cases ha.symm.trans hc
  · exact hc

/-- A block is finished when all that it links to is: nothing that is finished leads back to it. -/
theorem Sealed.insert_true {a : Key.Name} (h : Sealed w m) (ha : m[a]? ≠ some true)
    (hall : ∀ b, w.Links a b → m[b]? = some true) : Sealed w (m.insert a true) := by
  have kept {b : Key.Name} (hb : m[b]? = some true) : (m.insert a true)[b]? = some true := by
    rw [Std.HashMap.getElem?_insert]
    split
    · rfl
    · exact hb
  have back {b : Key.Name} (hb : (m.insert a true)[b]? = some true) :
      a = b ∨ m[b]? = some true := by
    rw [Std.HashMap.getElem?_insert] at hb
    split at hb
    · rename_i hab
      exact .inl (eq_of_beq hab)
    · exact .inr hb
  constructor
  · intro b c hb hbc
    rcases back hb with rfl | hb
    · exact kept (hall c hbc)
    · exact kept (h.closed b c hb hbc)
  · intro b hb hcycle
    rcases back hb with rfl | hb
    · obtain ⟨c, hac, hca⟩ := TransGen.head'_iff.mp hcycle
      rcases Relation.reflTransGen_iff_eq_or_transGen.mp hca with rfl | hca
      · exact ha (hall _ hac)
      · exact ha (h.reaches (hall c hac) hca)
    · exact h.acyclic b hb hcycle

theorem Further.finish {a : Key.Name} (ha : m[a]? = none) (h : Further (m.insert a false) m') :
    Further m (m'.insert a true) := by
  constructor
  · intro b hb
    rw [Std.HashMap.getElem?_insert]
    split
    · rfl
    · rename_i hab
      exact h.finished b (by rw [Std.HashMap.getElem?_insert, if_neg hab]; exact hb)
  · intro b
    rw [Std.HashMap.getElem?_insert]
    split
    · rename_i hab
      obtain rfl := eq_of_beq hab
      simp [ha]
    · rename_i hab
      rw [h.way b, Std.HashMap.getElem?_insert, if_neg hab]

end Marks

/-! ### Room

Of the steps that a search is given there are always more than blocks without a mark. -/

/-- The number of blocks that have no mark. -/
def unmarked (w : Workspace) (m : Marks) : Nat :=
  ((w.entries.map (·.1.name)).toFinset.filter fun a => m[a]? = none).card

theorem unmarked_lt (w : Workspace) (m : Marks) : w.unmarked m < w.size + 1 := by
  refine Nat.lt_succ_of_le ((Finset.card_filter_le ..).trans ?_)
  rw [size, Table.size_eq]
  exact (List.toFinset_card_le _).trans_eq (List.length_map _)

theorem unmarked_le {m m' : Marks} (h : ∀ a : Key.Name, m'[a]? = none → m[a]? = none) :
    w.unmarked m' ≤ w.unmarked m :=
  Finset.card_le_card fun a ha => by
    rw [Finset.mem_filter] at ha ⊢
    exact ⟨ha.1, h a ha.2⟩

/-- A mark for a block that has links leaves fewer blocks without one. -/
theorem unmarked_insert_lt {m : Marks} {k : Key} {t : Value} (ht : t ∈ w.targetsOf k)
    (hk : m[k.name]? = none) (finished : Bool) :
    w.unmarked (m.insert k.name finished) < w.unmarked m := by
  obtain ⟨b, hb, -⟩ := mem_targetsOf.mp ht
  have hmem : k.name ∈ (w.entries.map (·.1.name)).toFinset :=
    List.mem_toFinset.mpr (List.mem_map.mpr (exists_entry_of_find? hb))
  refine Finset.card_lt_card (Finset.ssubset_iff_of_subset ?_ |>.mpr ⟨k.name, ?_, ?_⟩)
  · intro a ha
    rw [Finset.mem_filter, Std.HashMap.getElem?_insert] at ha
    rw [Finset.mem_filter]
    split at ha
    · cases ha.2
    · exact ha
  · exact Finset.mem_filter.mpr ⟨hmem, hk⟩
  · rw [Finset.mem_filter, Std.HashMap.getElem?_insert_self]
    rintro ⟨-, h⟩
    cases h

/-! ### The search -/

/-- Whether nothing can be named by a link of some block. -/
def Unnamed (w : Workspace) (e : Error) : Prop :=
  ∃ k b t, w.find? k = some b ∧ t ∈ b.targets ∧ t.toKey = .error e

/-- What a search comes to: marks that are sealed and of which `P` holds, a cycle that is there, or
a link that names nothing. -/
inductive Comes (w : Workspace) (m : Marks) (P : Marks → Prop) : Except Halt Marks → Prop where
  | finished {m' : Marks} : m.Further m' → m'.Sealed w → P m' → Comes w m P (.ok m')
  | cycle : w.Cyclic → Comes w m P (.error .cycle)
  | failure {e : Error} : w.Unnamed e → Comes w m P (.error (.failure e))

/-- Searches one after the other come to what each of them does. -/
theorem comes_foldlM {α : Type} {f : Marks → α → Except Halt Marks} {P : α → Marks → Prop}
    (hP : ∀ {a m m'}, m.Further m' → P a m → P a m') {as : List α} {m : Marks}
    (hf : ∀ a ∈ as, ∀ m', m.Further m' → m'.Sealed w → w.Comes m' (P a) (f m' a))
    (hm : m.Sealed w) : w.Comes m (fun m' => ∀ a ∈ as, P a m') (as.foldlM f m) := by
  induction as generalizing m with
  | nil => exact .finished .refl hm fun a ha => nomatch ha
  | cons a as ih =>
      rw [List.foldlM_cons]
      have first := hf a List.mem_cons_self m .refl hm
      generalize f m a = r at first
      cases first with
      | cycle h => exact .cycle h
      | failure h => exact .failure h
      | @finished m' hfurther hsealed ha =>
          have rest := ih (fun a' ha' m'' h => hf a' (List.mem_cons_of_mem a ha') m''
            (hfurther.trans h)) hsealed
          change w.Comes m _ (as.foldlM f m')
          generalize as.foldlM f m' = r at rest
          cases rest with
          | cycle h => exact .cycle h
          | failure h => exact .failure h
          | @finished m'' hfurther' hsealed' hall =>
              refine .finished (hfurther.trans hfurther') hsealed' fun a' ha' => ?_
              rcases List.mem_cons.mp ha' with rfl | ha'
              · exact hP hfurther' ha
              · exact hall a' ha'

theorem unmarked_le_of_further {m m' : Marks} (h : m.Further m') :
    w.unmarked m' ≤ w.unmarked m :=
  unmarked_le fun a ha => by
    cases hm : m[a]? with
    | none => rfl
    | some finished =>
        cases finished with
        | true => cases ha.symm.trans (h.finished a hm)
        | false => cases ha.symm.trans ((h.way a).mpr hm)

/-- A search from `k`, when all that is on the way leads to `k`. -/
theorem comes_searchFrom {n : Nat} {m : Marks} {k : Key} (hm : m.Sealed w)
    (hway : ∀ a : Key.Name, m[a]? = some false → TransGen w.Links a k.name)
    (hroom : w.unmarked m < n) :
    w.Comes m (fun m' => m'[k.name]? = some true) (w.searchFrom n m k) := by
  induction n generalizing m k with
  | zero => exact absurd hroom (Nat.not_lt_zero _)
  | succ n ih =>
      unfold searchFrom
      split
      · rename_i hk
        exact .finished .refl hm hk
      · rename_i hk
        exact .cycle ⟨k.name, hway k.name hk⟩
      · rename_i hk
        -- what is below `k` is searched with `k` on the way
        have below : w.Comes (m.insert k.name false)
            (fun m' => ∀ t ∈ w.targetsOf k, ∀ j, t.toKey = .ok j → m'[j.name]? = some true)
            ((w.targetsOf k).foldlM (fun m t => do w.searchFrom n m (← linkKey t))
              (m.insert k.name false)) := by
          refine comes_foldlM (fun h ht j hj => h.finished _ (ht j hj))
            (fun t ht m' hfurther hm' => ?_) (hm.insert_false hk)
          cases hj : t.toKey with
          | error e =>
              obtain ⟨b, hb, ht⟩ := mem_targetsOf.mp ht
              simp only [linkKey, hj]
              exact .failure ⟨k, b, t, hb, ht, hj⟩
          | ok j =>
              have hlink := links_of_mem ht hj
              have hsearch := ih (k := j) hm' (fun a ha => ?_)
                (Nat.lt_of_le_of_lt (unmarked_le_of_further hfurther)
                  (Nat.lt_of_lt_of_le (unmarked_insert_lt ht hk false) (Nat.le_of_lt_succ hroom)))
              · simp only [linkKey, hj, Except.ok.injEq, forall_eq']
                exact hsearch
              · rw [hfurther.way, Std.HashMap.getElem?_insert] at ha
                split at ha
                · rename_i hka
                  obtain rfl := eq_of_beq hka
                  exact .single hlink
                · exact (hway a ha).tail hlink
        generalize List.foldlM (m := Except Halt) _ _ _ = r at below ⊢
        cases below with
        | cycle h => exact .cycle h
        | failure h => exact .failure h
        | @finished m' hfurther hsealed hall =>
            have hopen : m'[k.name]? = some false :=
              (hfurther.way _).mpr Std.HashMap.getElem?_insert_self
            refine .finished (hfurther.finish hk) (hsealed.insert_true (by simp [hopen]) ?_)
              Std.HashMap.getElem?_insert_self
            intro a ha
            obtain ⟨t, j, ht, hj, rfl⟩ := exists_of_links ha
            exact hall t ht j hj

/-! ### The search as a loop -/

/-- A search as it stands: the blocks that it has not begun from, those on the way, the last one
first, each with the links that are still to be followed from it, and the marks. -/
structure Search where
  starts : List Key
  way : List (Key × List Value)
  marks : Marks

/-- One turn of the loop: the search after it, or the answer. -/
def Search.turn (w : Workspace) (s : Search) : Search ⊕ Except Error Bool :=
  match s.way with
  | [] =>
    match s.starts with
    | [] => .inr (.ok false)
    | k :: starts =>
      if (s.marks[k.name]?).isSome then .inl { s with starts }
      else .inl ⟨starts, [(k, w.targetsOf k)], s.marks.insert k.name false⟩
  | (k, []) :: way => .inl { s with way, marks := s.marks.insert k.name true }
  | (k, t :: pending) :: way =>
    match t.toKey with
    | .error e => .inr (.error e)
    | .ok j =>
      match s.marks[j.name]? with
      | some true => .inl { s with way := (k, pending) :: way }
      | some false => .inr (.ok true)
      | none =>
        .inl ⟨s.starts, (j, w.targetsOf j) :: (k, pending) :: way, s.marks.insert j.name false⟩

/-- Whether the loop comes to an end with an answer, from a search as it stands. -/
inductive Search.Halts (w : Workspace) (answer : Except Error Bool) : Search → Prop where
  | now {s : Search} : s.turn w = .inr answer → Halts w answer s
  | later {s t : Search} : s.turn w = .inl t → Halts w answer t → Halts w answer s

/-- The search that has not begun. -/
def search (w : Workspace) : Search := ⟨w.entries.map (·.1), [], ∅⟩

namespace Search

variable {answer : Except Error Bool} {starts : List Key} {way : List (Key × List Value)}
  {m : Marks}

/-- Whether the loop goes on to an answer from what a part of the search has come to. -/
def Onward (w : Workspace) (answer : Except Error Bool) (starts : List Key)
    (way : List (Key × List Value)) : Except Halt Marks → Prop
  | .ok m => Halts w answer ⟨starts, way, m⟩
  | .error .cycle => answer = .ok true
  | .error (.failure e) => answer = .error e

theorem searchFrom_over {n : Nat} {m : Marks} {k : Key} (hk : m[k.name]? = some true) :
    w.searchFrom (n + 1) m k = .ok m := by
  simp only [searchFrom, hk]

theorem searchFrom_way {n : Nat} {m : Marks} {k : Key} (hk : m[k.name]? = some false) :
    w.searchFrom (n + 1) m k = .error .cycle := by
  simp only [searchFrom, hk]

/-- What is marked stays so. -/
theorem getElem?_eq_none_of_searchFrom {n : Nat} {m m' : Marks} {k : Key} {a : Key.Name}
    (h : w.searchFrom n m k = .ok m') (ha : m'[a]? = none) : m[a]? = none := by
  induction n generalizing m m' k with
  | zero =>
      obtain rfl := Except.ok.inj h
      exact ha
  | succ n ih =>
      have dropped {m : Marks} {b : Key.Name} {finished : Bool}
          (h : (m.insert b finished)[a]? = none) : m[a]? = none := by
        rw [Std.HashMap.getElem?_insert] at h
        split at h
        · cases h
        · exact h
      have folded {ts : List Value} {m m' : Marks}
          (h : ts.foldlM (fun m t => do w.searchFrom n m (← linkKey t)) m = .ok m')
          (ha : m'[a]? = none) : m[a]? = none := by
        induction ts generalizing m with
        | nil =>
            obtain rfl := Except.ok.inj h
            exact ha
        | cons t ts iht =>
            rw [List.foldlM_cons] at h
            obtain ⟨m₁, h₁, h⟩ := exists_of_bind_ok h
            obtain ⟨j, -, h₁⟩ := exists_of_bind_ok h₁
            exact ih h₁ (iht h)
      unfold searchFrom at h
      split at h
      · obtain rfl := Except.ok.inj h
        exact ha
      · cases h
      · obtain ⟨m₁, h₁, h⟩ := exists_of_bind_ok h
        obtain rfl := Except.ok.inj h
        exact dropped (folded h₁ (dropped ha))

/-- The links of the first block on the way are followed one after the other. -/
theorem halts_pending {n : Nat} {k : Key} {pending : List Value}
    (ih : ∀ {m : Marks} {j : Key} {way : List (Key × List Value)}, w.unmarked m < n →
      m[j.name]? = none → Onward w answer starts way (w.searchFrom n m j) →
      Halts w answer ⟨starts, (j, w.targetsOf j) :: way, m.insert j.name false⟩)
    (hroom : pending = [] ∨ w.unmarked m < n)
    (h : Onward w answer starts way (do
      let m ← pending.foldlM (fun m t => do w.searchFrom n m (← linkKey t)) m
      return m.insert k.name true)) :
    Halts w answer ⟨starts, (k, pending) :: way, m⟩ := by
  induction pending generalizing m with
  | nil => exact .later rfl h
  | cons t pending ihp =>
      obtain ⟨n, rfl⟩ : ∃ n', n = n' + 1 := by
        rcases hroom with hnil | hroom
        · cases hnil
        · exact Nat.exists_eq_succ_of_ne_zero (Nat.ne_zero_of_lt hroom)
      have hroom : w.unmarked m < n + 1 := hroom.resolve_left (List.cons_ne_nil _ _)
      rw [List.foldlM_cons] at h
      cases hj : t.toKey with
      | error e =>
          simp only [linkKey, hj] at h
          exact .now (by simp only [turn, hj, show answer = .error e from h])
      | ok j =>
          simp only [linkKey, hj] at h
          change Onward w answer starts way ((do
            let m ← w.searchFrom (n + 1) m j
            pending.foldlM (fun m t => do w.searchFrom (n + 1) m (← linkKey t)) m) >>=
              fun m => pure (m.insert k.name true)) at h
          cases hmark : m[j.name]? with
          | some finished =>
              cases finished with
              | true =>
                  rw [searchFrom_over hmark] at h
                  exact .later (by simp only [turn, hj, hmark]) (ihp (.inr hroom) h)
              | false =>
                  rw [searchFrom_way hmark] at h
                  exact .now (by simp only [turn, hj, hmark, show answer = .ok true from h])
          | none =>
              refine .later (t := ⟨starts, (j, w.targetsOf j) :: (k, pending) :: way,
                m.insert j.name false⟩) (by simp only [turn, hj, hmark]) (ih hroom hmark ?_)
              cases hsearch : w.searchFrom (n + 1) m j with
              | error e =>
                  rw [hsearch] at h
                  cases e <;> exact h
              | ok m' =>
                  rw [hsearch] at h
                  have hle : w.unmarked m' ≤ w.unmarked m :=
                    unmarked_le fun _ => getElem?_eq_none_of_searchFrom hsearch
                  exact ihp (.inr (Nat.lt_of_le_of_lt hle hroom)) h

/-- The loop goes on from a block that it has come upon as the search from there does. -/
theorem halts_searchFrom {n : Nat} {k : Key} (hroom : w.unmarked m < n) (hk : m[k.name]? = none)
    (h : Onward w answer starts way (w.searchFrom n m k)) :
    Halts w answer ⟨starts, (k, w.targetsOf k) :: way, m.insert k.name false⟩ := by
  induction n generalizing m k way with
  | zero => exact absurd hroom (Nat.not_lt_zero _)
  | succ n ih =>
      simp only [searchFrom, hk] at h
      refine halts_pending (fun hroom hj h => ih hroom hj h) ?_ h
      cases htargets : w.targetsOf k with
      | nil => exact .inl rfl
      | cons t ts =>
          refine .inr (Nat.lt_of_lt_of_le (unmarked_insert_lt (t := t) ?_ hk false)
            (Nat.le_of_lt_succ hroom))
          rw [htargets]
          exact List.mem_cons_self

/-- From blocks that it has not begun from, with nothing on the way, the loop ends as the searches
from them do. -/
theorem halts_starts {es : List (Key × Block)} (hm : m.Sealed w)
    (hnone : ∀ a : Key.Name, m[a]? ≠ some false) :
    Halts w
      (match es.foldlM (fun m e => w.searchFrom (w.size + 1) m e.1) m with
      | .ok _ => .ok false
      | .error .cycle => .ok true
      | .error (.failure e) => .error e)
      ⟨es.map (·.1), [], m⟩ := by
  induction es generalizing m with
  | nil => exact .now rfl
  | cons e es ih =>
      obtain ⟨k, b⟩ := e
      rw [List.foldlM_cons, List.map_cons]
      have hsearch := comes_searchFrom (n := w.size + 1) (k := k) hm
        (fun a ha => absurd ha (hnone a)) (w.unmarked_lt m)
      cases hk : m[k.name]? with
      | some finished =>
          cases finished with
          | false => exact absurd hk (hnone _)
          | true =>
              rw [searchFrom_over hk]
              exact .later (by simp only [turn, hk, Option.isSome_some, if_true]) (ih hm hnone)
      | none =>
          refine .later (t := ⟨es.map (·.1), [(k, w.targetsOf k)], m.insert k.name false⟩)
            (by simp only [turn, hk, Option.isSome_none, Bool.false_eq_true, if_false])
            (halts_searchFrom (w.unmarked_lt m) hk ?_)
          generalize w.searchFrom (w.size + 1) m k = r at hsearch ⊢
          cases hsearch with
          | cycle => exact rfl
          | failure => exact rfl
          | finished hfurther hsealed =>
              exact ih hsealed fun a ha => hnone a ((hfurther.way a).mp ha)

end Search

theorem halts_hasCycle (w : Workspace) : w.search.Halts w w.hasCycle := by
  unfold hasCycle search
  exact Search.halts_starts Marks.sealed_empty (by simp)

theorem comes_entries (w : Workspace) : w.Comes ∅
    (fun m => ∀ e ∈ w.entries, m[e.1.name]? = some true)
    (w.entries.foldlM (fun m e => w.searchFrom (w.size + 1) m e.1) ∅) := by
  refine comes_foldlM (P := fun (e : Key × Block) m => m[e.1.name]? = some true)
    (fun h ha => h.finished _ ha)
    (fun e _ m hfurther hm => ?_) Marks.sealed_empty
  refine comes_searchFrom hm (fun a ha => ?_) (w.unmarked_lt m)
  simpa using (hfurther.way a).mp ha

/-- Marks that are sealed, and that all blocks have, leave no room for a cycle. -/
theorem not_cyclic {m : Marks} (hm : m.Sealed w)
    (hall : ∀ e ∈ w.entries, m[e.1.name]? = some true) : ¬ w.Cyclic := by
  rintro ⟨a, ha⟩
  obtain ⟨b, hab, -⟩ := TransGen.head'_iff.mp ha
  obtain ⟨k, c, rfl, hc⟩ := exists_of_links_name hab
  obtain ⟨e, he, hname⟩ := exists_entry_of_find? hc
  exact hm.acyclic _ (hname ▸ hall e he) ha

/-- **The search for cycles is exact.**  Whatever the blocks link to, the loop comes to an end, and
it answers that there is a cycle just when there is one; unless it comes upon a link that cannot
name a block. -/
theorem hasCycle_exact (w : Workspace) :
    w.search.Halts w w.hasCycle ∧
      ((∃ answer, w.hasCycle = .ok answer ∧ (answer = true ↔ w.Cyclic)) ∨
        ∃ e, w.hasCycle = .error e ∧ w.Unnamed e) := by
  refine ⟨w.halts_hasCycle, ?_⟩
  have hcomes := w.comes_entries
  unfold hasCycle
  generalize List.foldlM (m := Except Halt) _ _ _ = r at hcomes ⊢
  cases hcomes with
  | cycle h => exact .inl ⟨true, rfl, iff_of_true rfl h⟩
  | failure h => exact .inr ⟨_, rfl, h⟩
  | finished _ hsealed hall =>
      exact .inl ⟨false, rfl, iff_of_false Bool.false_ne_true (not_cyclic hsealed hall)⟩

end Blockwork.Workspace
