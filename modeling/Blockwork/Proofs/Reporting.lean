import Blockwork.Proofs.Superseding

/-!
# What cycles report

Where newer cycles supersede older ones, a result is that of the newest cycle at that moment, unless
the program has no steps at all: a cycle looks at the clock before each step, and its program ends
with a step in which it does not wait (`Program.Closed`).  So no result comes of a cycle with steps
once it is not the newest one any more (`Scene.Comes.reports_current`).  A cycle without steps
reports in its first turn, which it has before all cycles that are started later, since the cycles
stand in line (`Scene.Lined`); so the numbers of the results grow strictly all the same
(`Scene.Comes.reports_in_order`).
-/

namespace Blockwork

open Relation (ReflTransGen)

/-! ### Programs -/

/-- Whether a program does not end with a wait. -/
def Program.Closed (p : Program) : Prop := ∀ ran e, p.ops ≠ ran ++ [.sleep e]

theorem Fragment.getLast?_opsOf {fs : List Fragment}
    (h : ∀ f ∈ fs, f.isStatement = true ∨ ∃ e, f.ops = [.expr e]) (e : Expr) :
    (opsOf fs).getLast? ≠ some (.sleep e) := by
  induction fs with
  | nil => exact fun h => nomatch h
  | cons f fs ih =>
      rw [List.forall_mem_cons] at h
      rw [opsOf_cons, instrument_ops, List.getLast?_append]
      cases hlast : (opsOf fs).getLast? with
      | some op =>
          have hrest := ih h.2
          rw [hlast] at hrest
          exact hrest
      | none =>
          rw [Option.none_or]
          cases hs : f.isStatement with
          | true =>
              rw [if_pos rfl, List.getLast?_concat]
              exact fun h => nomatch h
          | false =>
              obtain hs' | ⟨x, hops⟩ := h.1
              · rw [hs] at hs'
                cases hs'
              · rw [if_neg Bool.false_ne_true, hops]
                exact fun h => nomatch h

/-- A program that is prepared for highlighting ends with the restoring of a block, or with an
expression. -/
theorem Program.Closed.of_prepare {t : Compiler} (ht : t.Plain) {w : Workspace} {p : Program}
    {text : String} (h : Session.prepare t w = .ok (p, text)) : p.Closed := by
  obtain ⟨q, hq, rfl⟩ := Session.exists_program h
  intro ran e hops
  refine Fragment.getLast?_opsOf (ht.program_loose hq).2 e ?_
  rw [Program.ops, Program.fragments_instrument] at hops
  rw [show Fragment.opsOf q.fragments = ran ++ [.sleep e] from hops, List.getLast?_concat]

/-- A cycle that has no steps to come has none at all, if it goes on. -/
theorem Cycle.Underway.ops_eq_nil {c : Cycle} (h : c.Underway) (hc : c.program.Closed)
    (hp : c.pending = []) : c.program.ops = [] := by
  obtain ⟨ran, hops, hran⟩ := h.come
  rw [hp, List.append_nil] at hops
  obtain rfl | ⟨before, e, rfl⟩ := hran
  · exact hops
  · exact absurd hops (hc before e)

/-! ### Results -/

/-- Whether a result is that of a cycle with a number, or of a program without steps. -/
def Completion.Reports (r : Completion) (current : Nat → Prop) : Prop :=
  r.executed = 0 ∨ ∃ g : Nat, r.generation = .int g ∧ current g

namespace Stage

variable {v v' : Stage}

/-- An orderly stage whose programs do not end with waits. -/
structure Closed (v : Stage) : Prop extends v.Orderly where
  closed : ∀ c ∈ v.cycles, c.program.Closed

/-- **What is done leaves no more than one result more**, which is that of the newest cycle or of a
program without steps. -/
theorem Move.reports (hm : Move v v') (h : v.Closed) :
    v'.session.results = v.session.results ∨ ∃ r, v'.session.results = v.session.results ++ [r] ∧
      r.Reports (· = v.session.generation) := by
  cases hm with
  | edited | paced | woken | renewed | begun => exact .inl rfl
  | paused _ hg | superseded _ _ hg | failed _ _ hg =>
      obtain ⟨_, rfl⟩ := hg.session_eq
      exact .inl rfl
  | @finished c cs q w hperm hg =>
      have hc : c ∈ v.cycles := hperm.mem_iff.mpr List.mem_cons_self
      have hstale := hg.stale h.supersedes
      obtain ⟨_, rfl⟩ := hg.session_eq
      refine .inr ⟨_, rfl, ?_⟩
      by_cases hnew : c.generation = v.session.generation
      · exact .inr ⟨c.generation, rfl, hnew⟩
      · have hpending := ((hstale hnew).2.2 _ rfl).2
        refine .inl ?_
        rw [(h.underway c hc).ops_eq_nil (h.closed c hc) hpending]
        rfl

theorem Move.closed (hm : Move v v') (h : v.Closed) : v'.Closed := by
  refine ⟨hm.orderly h.toOrderly, ?_⟩
  have split {c : Cycle} {cs : List Cycle} (hperm : v.cycles.Perm (c :: cs)) :=
    List.forall_mem_cons.mp fun d hd => h.closed d (hperm.mem_iff.mpr hd)
  cases hm with
  | edited | paced | renewed => exact h.closed
  | begun _ hp => exact List.forall_mem_cons.mpr ⟨.of_prepare h.plain hp, h.closed⟩
  | woken hperm | paused hperm =>
      obtain ⟨hc, hcs⟩ := split hperm
      exact List.forall_mem_cons.mpr ⟨hc, hcs⟩
  | finished hperm | superseded hperm | failed hperm => exact (split hperm).2

/-- **Results are those of cycles that were not superseded**, or of programs without steps. -/
theorem Leads.reports (hl : v.Leads v') (h : v.Closed) : v'.Closed ∧
    v.session.generation ≤ v'.session.generation ∧
      ∃ rs, v'.session.results = v.session.results ++ rs ∧ ∀ r ∈ rs, r.Reports fun g =>
        v.session.generation ≤ g ∧ g ≤ v'.session.generation := by
  induction hl with
  | refl => exact ⟨h, Nat.le_refl _, [], (List.append_nil _).symm, fun _ hr => nomatch hr⟩
  | @tail u u' _ hm ih =>
      obtain ⟨hu, hle, rs, hrs, hreports⟩ := ih
      have hmore := hm.generation_le
      have old (r : Completion) (hr : r ∈ rs) : r.Reports fun g =>
          v.session.generation ≤ g ∧ g ≤ u'.session.generation :=
        (hreports r hr).imp_right fun ⟨g, hg, hv, hu⟩ => ⟨g, hg, hv, hu.trans hmore⟩
      refine ⟨hm.closed hu, hle.trans hmore, ?_⟩
      obtain hsame | ⟨r, hr, hnew⟩ := hm.reports hu
      · exact ⟨rs, hsame.trans hrs, old⟩
      · refine ⟨rs ++ [r], by rw [hr, hrs, List.append_assoc], fun x hx => ?_⟩
        rcases List.mem_append.mp hx with hx | hx
        · exact old x hx
        · obtain rfl := List.mem_singleton.mp hx
          exact hnew.imp_right fun ⟨g, hg, heq⟩ => ⟨g, hg, heq ▸ hle, heq ▸ hmore⟩

end Stage

namespace Scene

variable {s t : Scene Desk}

/-- What a desk shows that is set up. -/
theorem Opens.exists_closed (h : s.Opens) : ∃ v, s.Shows v ∧ v.Closed := by
  obtain ⟨v, hv, horderly⟩ := h.exists_orderly
  have hnone : v.cycles = [] := by
    have hcycles := hv.cycles
    rw [h.ready, h.waiting] at hcycles
    exact hcycles.symm.eq_nil
  exact ⟨v, hv, horderly, fun c hc => by rw [hnone] at hc; cases hc⟩

/-- **A result that comes later is of a cycle that has not been superseded until then**, unless its
program has no steps. -/
theorem Comes.reports_current (h : s.Comes) (ht : s.Later t) : s.newest ≤ t.newest ∧
    ∃ rs, t.results = s.results ++ rs ∧
      ∀ r ∈ rs, r.Reports fun g => s.newest ≤ g ∧ g ≤ t.newest := by
  obtain ⟨o, ho, hs⟩ := h
  obtain ⟨u, hu, hclosed⟩ := ho.exists_closed
  obtain ⟨v, hv, hleads⟩ := hs.from hclosed.toSound ⟨u, hu, .refl⟩
  have hv' := (hleads.reports hclosed).1
  obtain ⟨v', hv'', hleads'⟩ := ht.from hv'.toSound ⟨v, hv, .refl⟩
  rw [hv.newest_eq, hv''.newest_eq, hv.results_eq, hv''.results_eq]
  exact (hleads'.reports hv').2

/-! ### In line -/

/-- Whether numbers grow, and cycles without steps stand in line behind older cycles only, and come
after those numbers. -/
structure Queued (s : Scene Desk) (gs : List Nat) : Prop where
  rising : gs.Pairwise (· < ·)
  ahead : s.audience.ready.Pairwise fun c d => d.pending = [] → c.generation < d.generation
  due : ∀ c ∈ s.audience.ready, c.pending = [] → ∀ g ∈ gs, g < c.generation
  waiting : ∀ c ∈ s.audience.waiting, c.pending ≠ []

namespace Queued

variable {gs : List Nat} {c : Cycle} {ready : List Cycle}

theorem same (h : s.Queued gs) (hq : s.SameQueue t) : t.Queued gs :=
  ⟨h.rising, hq.1 ▸ h.ahead, hq.1 ▸ h.due, hq.2 ▸ h.waiting⟩

theorem joins (h : s.Queued gs) (hq : s.Joins t c) (hc : c.pending = [] →
    (∀ d ∈ s.audience.ready, d.generation < c.generation) ∧ ∀ g ∈ gs, g < c.generation) :
    t.Queued gs where
  rising := h.rising
  ahead := by
    rw [hq.1, List.pairwise_append]
    refine ⟨h.ahead, List.pairwise_singleton _ _, fun d hd e he hpending => ?_⟩
    obtain rfl := List.mem_singleton.mp he
    exact (hc hpending).1 d hd
  due d hd hpending := by
    rw [hq.1, List.mem_append, List.mem_singleton] at hd
    obtain hd | rfl := hd
    · exact h.due d hd hpending
    · exact (hc hpending).2
  waiting := hq.2 ▸ h.waiting

theorem popped (h : s.Queued gs) (hready : s.audience.ready = c :: ready) :
    Queued { s with audience := { s.audience with ready } } gs where
  rising := h.rising
  ahead := (List.pairwise_cons.mp (hready ▸ h.ahead)).2
  due d hd := h.due d (hready ▸ List.mem_cons_of_mem c hd)
  waiting := h.waiting

/-- The first cycle in line reports, which is newer than those that have reported before. -/
theorem reported (h : s.Queued gs) (hready : s.audience.ready = c :: ready)
    (hnew : ∀ g ∈ gs, g < c.generation) :
    Queued { s with audience := { s.audience with ready } } (gs ++ [c.generation]) where
  rising := List.pairwise_append.mpr ⟨h.rising, List.pairwise_singleton _ _, fun g hg g' hg' =>
    List.mem_singleton.mp hg' ▸ hnew g hg⟩
  ahead := (h.popped hready).ahead
  due d hd hpending g hg := by
    rcases List.mem_append.mp hg with hg | hg
    · exact (h.popped hready).due d hd hpending g hg
    · have hahead := h.ahead
      rw [hready, List.pairwise_cons] at hahead
      exact List.mem_singleton.mp hg ▸ hahead.1 d hd hpending
  waiting := h.waiting

end Queued

/-- Whether a desk shows a stage whose results are in the order of their numbers, where cycles
without steps have their turns before all newer ones. -/
structure Lined (s : Scene Desk) (v : Stage) (gs : List Nat) : Prop extends s.Queued gs where
  shows : s.Shows v
  closed : v.Closed
  numbers : v.session.results.map (·.generation) = gs.map fun g => .int g

/-- Whether that is so with some stage and some numbers. -/
def InLine (s : Scene Desk) : Prop := ∃ v gs, s.Lined v gs

namespace Lined

variable {v v' : Stage} {gs : List Nat} {c : Cycle} {ready : List Cycle}

/-- Cycles with a result are not under way any more. -/
theorem settled (h : s.Lined v gs) {g : Nat} (hg : g ∈ gs) :
    g ≤ v.session.generation ∧ ∀ c ∈ v.cycles, c.generation ≠ g := by
  have hmem : Value.int g ∈ v.session.results.map (·.generation) :=
    h.numbers ▸ List.mem_map_of_mem hg
  obtain ⟨r, hr, hrg⟩ := List.mem_map.mp hmem
  obtain ⟨g', hg', hle, hne⟩ := h.closed.settled r hr
  rw [hg', Value.int.injEq, Int.natCast_inj] at hrg
  exact hrg ▸ ⟨hle, hne⟩

/-- What a move leaves that reports nothing. -/
theorem moved (h : s.Lined v gs) (hm : v.Move v') (ht : t.Shows v') (hq : t.Queued gs)
    (hr : v'.session.results = v.session.results) : t.InLine :=
  ⟨v', gs, hq, ht, hm.closed h.closed, hr ▸ h.numbers⟩

/-- A new cycle stands behind all others. -/
theorem starts (h : s.Lined v gs) (ht : s.Starts v t) : t.InLine := by
  cases ht with
  | idle => exact ⟨v, gs, h⟩
  | renewed hw ht hq => exact h.moved (.renewed hw) ht (h.same hq) rfl
  | begun hw hp ht hq =>
      refine h.moved (.begun hw hp) ht (h.joins hq fun _ => ⟨fun d hd => ?_, fun g hg => ?_⟩) rfl
      · have hmem : d ∈ v.cycles := h.shows.mem_cycles.mp (List.mem_append_left _ hd)
        exact Nat.lt_succ_of_le (h.closed.upTo d hmem)
      · exact Nat.lt_succ_of_le (h.settled hg).1

/-- A cycle that pauses has steps to come. -/
theorem pending_ne_nil (h : s.Lined v gs) (hperm : v.cycles.Perm (c :: ready)) {q : Session}
    {w : Workspace} {pause : Pause} {pending : List Op}
    (hg : v.Goes c (.ok (.paused pause pending)) q w) : pending ≠ [] := by
  rintro rfl
  have hmoved := (Stage.Move.paused hperm hg).closed h.closed
  have hnone := (hmoved.underway _ List.mem_cons_self).ops_eq_nil
    (hmoved.closed _ List.mem_cons_self) rfl
  obtain ⟨ran, hops, -⟩ := (h.closed.underway c (hperm.mem_iff.mpr List.mem_cons_self)).come
  rw [show c.program.ops = [] from hnone] at hops
  have hpending : c.pending = [] := (List.append_eq_nil_iff.mp hops.symm).2
  -- without steps a cycle does not pause
  have hfinished := hg.of_ends (Q := fun r _ _ => ∀ p, r = .ok p → p = .finished) fun s' _ _ => by
    unfold Session.proceed
    rw [hpending]
    split
    · exact Ends.throw fun _ hp => nomatch hp
    · exact Ends.pure fun _ hp => (Except.ok.inj hp).symm
  cases hfinished _ rfl

/-- What the turn of the first cycle in line leaves. -/
theorem resumes (h : s.Lined v gs) (hready : s.audience.ready = c :: ready)
    (hperm : v.cycles.Perm (c :: (ready ++ s.audience.waiting)))
    (ht : Scene.Resumes { s with audience := { s.audience with ready } } v c
      (ready ++ s.audience.waiting) t) : t.InLine := by
  have hpopped := h.popped hready
  cases ht with
  | finished hg ht hq =>
      have hm := Stage.Move.finished hperm hg
      have hstale := hg.stale h.closed.supersedes
      have hmem : c ∈ v.cycles := hperm.mem_iff.mpr List.mem_cons_self
      have hnew (g : Nat) (hgs : g ∈ gs) : g < c.generation := by
        by_cases hnewest : c.generation = v.session.generation
        · obtain ⟨hle, hne⟩ := h.settled hgs
          exact Nat.lt_of_le_of_ne (hnewest ▸ hle) (hne c hmem).symm
        · have hpending := ((hstale hnewest).2.2 _ rfl).2
          exact h.due c (hready ▸ List.mem_cons_self) hpending g hgs
      obtain ⟨_, rfl⟩ := hg.session_eq
      refine ⟨_, _, (h.reported hready hnew).same hq, ht, hm.closed h.closed, ?_⟩
      change (v.session.results ++ [_]).map _ = _
      rw [List.map_append, h.numbers, List.map_append]
      rfl
  | yields hg ht hq =>
      have hm := Stage.Move.paused hperm hg
      have hsteps := h.pending_ne_nil hperm hg
      obtain ⟨_, rfl⟩ := hg.session_eq
      exact h.moved hm ht (hpopped.joins hq fun hnil => absurd hnil hsteps) rfl
  | waits hg ht hr hw =>
      have hm := Stage.Move.paused hperm hg
      have hsteps := h.pending_ne_nil hperm hg
      obtain ⟨_, rfl⟩ := hg.session_eq
      refine h.moved hm ht ⟨h.rising, hr ▸ hpopped.ahead, hr ▸ hpopped.due, fun d hd => ?_⟩ rfl
      rw [hw, List.mem_append, List.mem_singleton] at hd
      obtain hd | rfl := hd
      · exact hpopped.waiting d hd
      · exact hsteps
  | superseded he hg ht hq =>
      have hm := Stage.Move.superseded hperm he hg
      obtain ⟨_, rfl⟩ := hg.session_eq
      exact h.moved hm ht (hpopped.same hq) rfl
  | failed he hg hw ht hq =>
      have hm := Stage.Move.failed hperm he hg hw
      obtain ⟨_, rfl⟩ := hg.session_eq
      exact h.moved hm ht (hpopped.same hq) rfl

end Lined

namespace InLine

theorem enduring : Enduring InLine where
  edited hw := fun ⟨v, gs, h⟩ => by
    have hm : v.Move _ := .edited (h.shows.workspace ▸ hw)
    exact h.moved hm ⟨h.shows.sessions, rfl, h.shows.cycles, h.shows.own, h.shows.civil⟩
      (h.same ⟨rfl, rfl⟩) rfl
  elsewhere host := fun ⟨v, gs, h⟩ =>
    ⟨v, gs, h.same ⟨rfl, rfl⟩, h.shows.elsewhere host, h.closed, h.numbers⟩
  noted _ := fun ⟨v, gs, h⟩ => ⟨v, gs, h.same ⟨rfl, rfl⟩,
    ⟨h.shows.sessions, h.shows.workspace, h.shows.cycles, h.shows.own, h.shows.civil⟩, h.closed,
    h.numbers⟩
  seated hl := fun ⟨v, gs, h⟩ =>
    ⟨v, gs, h.same ⟨rfl, rfl⟩, h.shows.listeners hl, h.closed, h.numbers⟩
  civil := fun ⟨_, _, h⟩ => h.shows.civil
  runs number := fun s ⟨_, _, h⟩ =>
    (h.shows.starts_runCode h.closed.filed number).mono (fun _ _ => h.starts) fun _ _ => h.starts

theorem keeps_turn : Keeps InLine Session.turn := by
  rintro s ⟨v, gs, h⟩
  cases hready : s.audience.ready with
  | nil =>
      unfold Session.turn
      refine Ends.bind (Ends.get ?_)
      rw [hready]
      exact Ends.pure ⟨v, gs, h⟩
  | cons c ready =>
      refine h.shows.ends_turn hready fun hperm hown hs => ?_
      exact (hs.resumes_resume h.closed.filed hown).mono (fun _ _ => h.resumes hready hperm)
        fun _ _ => h.resumes hready hperm

theorem keeps_wake {broken : Option Error} (hb : ∀ e ∈ broken, e.isFault = true) (place : Nat) :
    Keeps InLine (Session.wake place broken) := fun s ⟨v, gs, h⟩ =>
  (h.shows.wakes_wake place broken).mono (fun _ t ht => by
    obtain rfl | ⟨c, cs, hc, hperm, ht, hready, hwaiting⟩ := ht
    · exact ⟨v, gs, h⟩
    · -- a cycle that has waited has steps to come
      have hsteps := h.waiting c hc
      have hjoined : Queued { t with audience := { t.audience with
          waiting := s.audience.waiting } } gs :=
        h.joins ⟨hready, rfl⟩ fun hnil => absurd hnil hsteps
      exact h.moved (.woken hperm hb) ht ⟨h.rising, hjoined.ahead, hjoined.due,
        fun d hd => h.waiting d (hwaiting hd)⟩ rfl) fun _ _ he => he.elim

/-- **Whatever happens**, the cycles stay in line. -/
theorem keeps_event {e : Session.Event} (he : e.Fair) : Keeps InLine e.act := by
  cases e with
  | start => exact (enduring.keeps_start 0).bind fun _ => Keeps.pure ()
  | stop => exact enduring.keeps_stop 0
  | run => exact (enduring.runs 0).bind fun _ => Keeps.pure ()
  | call c => exact enduring.keeps_call c
  | turn => exact keeps_turn
  | wake place broken => exact keeps_wake he place
  | pace pacing =>
      exact fun s ⟨v, gs, h⟩ => Ends.modify (h.moved (.paced he)
        (h.shows.update ({ · with pacing })) (h.same ⟨rfl, rfl⟩) rfl)

end InLine

/-- **The numbers of the results grow strictly.** -/
theorem Comes.reports_in_order (h : s.Comes) : ∃ gs : List Nat,
    s.results.map (·.generation) = gs.map (fun g => .int g) ∧ gs.Pairwise (· < ·) ∧
      ∀ g ∈ gs, g ≤ s.newest := by
  obtain ⟨o, ho, hlater⟩ := h
  obtain ⟨u, hu, hclosed⟩ := ho.exists_closed
  obtain ⟨q, hq, -, -, -, hnone⟩ := ho.sessions
  have hopen : o.InLine := by
    refine ⟨u, [], ⟨.nil, ?_, ?_, ?_⟩, hu, hclosed, ?_⟩
    · rw [ho.ready]
      exact .nil
    · rw [ho.ready]
      exact fun _ hc => nomatch hc
    · rw [ho.waiting]
      exact fun _ hc => nomatch hc
    · obtain rfl : q = u.session := List.singleton_inj.mp (hq.symm.trans hu.sessions)
      rw [hnone]
      rfl
  have hs : s.InLine := by
    induction hlater with
    | refl => exact hopen
    | tail _ he ih =>
        obtain ⟨e, hfair, rfl⟩ := he
        exact (InLine.keeps_event hfair).stateAfter ih
  obtain ⟨v, gs, hv⟩ := hs
  refine ⟨gs, hv.shows.results_eq ▸ hv.numbers, hv.rising, fun g hg => ?_⟩
  rw [hv.shows.newest_eq]
  exact (hv.settled hg).1

end Scene

end Blockwork
