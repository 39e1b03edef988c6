import Blockwork.Proofs.Painting

/-!
# Cycles side by side

Where newer cycles do not supersede older ones, any number of cycles run side by side, and two of
them may highlight one block and restore it in either order.  As long as none of them has ended with
a fault, only blocks are highlighted that a cycle under way will restore (`Stage.Abreast`): a
highlight that one cycle has ended for another one is not missed, since restoring a block that is
not highlighted does nothing.  So when no cycle is under way, every highlight has been given back
(`Scene.OpensAbreast.given_back`).
-/

namespace Blockwork

open Relation (ReflTransGen)

namespace Stage

/-- What holds of a stage whatever is done at the desk, where cycles run side by side. -/
structure Abreast (v : Stage) : Prop extends v.Sound where
  lenient : v.session.settings.supersedes = false
  underway : ∀ c ∈ v.cycles, c.Underway
  /-- Until a cycle has failed, only blocks are highlighted that a cycle will restore. -/
  lit : v.session.fault = none →
    v.workspace.LitWithin fun k => ∃ c ∈ v.cycles, ∃ id ∈ Op.mark c.pending, id.Names k

variable {v v' : Stage} {c : Cycle} {cs : List Cycle} {r : Except Error Progress} {s : Session}
  {w : Workspace}

/-- What is highlighted wherever a cycle comes, besides others. -/
def Leaves (lit : Key → Prop) (c : Cycle) : Except Error Progress → Workspace → Prop
  | .ok .finished, w => w.LitWithin lit
  | .ok (.paused _ rest), w => w.LitWithin (Op.MayLight lit rest) ∧
      ∃ ran e, c.pending = ran ++ .sleep e :: rest
  | .error e, _ => e.isFault = true

/-- A cycle that goes on highlights only the block that its steps to come restore first, and ends
with an error only if that is a fault. -/
theorem Goes.abreast (h : v.Goes c r s w) (hv : v.Abreast) (hc : c.Underway) {lit : Key → Prop}
    (hlit : v.workspace.LitWithin (Op.MayLight lit c.pending)) : Leaves lit c r w := by
  refine h.of_ends (Q := fun r _ w => Leaves lit c r w) fun s' hw _ => ?_
  unfold Session.proceed
  split
  · rename_i e he
    exact Ends.throw (hc.fault e he)
  · have hclock : Session.clock v.session = [] := by
      rw [Session.clock, hv.lenient, if_neg Bool.false_ne_true]
    have hsteady : (Session.clock v.session).Steady (Session.terms v.session c).generation := by
      rw [hclock]
      exact Clock.steady_nil _
    refine (ends_advance_lit (t := Session.terms v.session c) hc.honest hv.fair rfl hc.paired
      hsteady (hw ▸ hv.filed) (hw ▸ hlit)).mono (fun p t ht => ?_) fun _ _ he => he
    cases p with
    | finished => exact ht
    | paused pause rest => exact ⟨ht.1, ht.2.2⟩

/-- Where one cycle goes on, the highlights of the others are the others'. -/
theorem Abreast.lit_first (h : v.Abreast) (hperm : v.cycles.Perm (c :: cs))
    (hf : v.session.fault = none) : v.workspace.LitWithin
      (Op.MayLight (fun k => ∃ d ∈ cs, ∃ id ∈ Op.mark d.pending, id.Names k) c.pending) := by
  refine (h.lit hf).mono fun k ⟨d, hd, hk⟩ => ?_
  rcases List.mem_cons.mp (hperm.mem_iff.mp hd) with rfl | hd
  · exact .inr hk
  · exact .inl ⟨d, hd, hk⟩

/-- **Whatever is done, a highlight is some cycle's to give back.** -/
theorem Move.abreast (hm : Move v v') (h : v.Abreast) : v'.Abreast := by
  have hsound := hm.sound h.toSound
  have anything (c : Cycle) : v.workspace.LitWithin (Op.MayLight (fun _ => True) c.pending) :=
    fun _ _ _ _ => .inl trivial
  have uncleared {w : Workspace} (hw : v.workspace.Cleared v.session.settings.supersedes w) :
      w = v.workspace := by
    rwa [h.lenient] at hw
  -- the cycle that goes on, and those that do not
  have split {c : Cycle} {cs : List Cycle} (hperm : v.cycles.Perm (c :: cs)) :
      c.Underway ∧ ∀ d ∈ cs, d.Underway :=
    List.forall_mem_cons.mp fun d hd => h.underway d (hperm.mem_iff.mpr hd)
  cases hm with
  | edited hw => exact { h with filed := hsound.filed, lit := fun hf => hw.litWithin (h.lit hf) }
  | paced hp => exact { h with fair := hp }
  | @woken c cs broken hperm hb =>
      obtain ⟨hc, hcs⟩ := split hperm
      refine { h with underway := List.forall_mem_cons.mpr ⟨⟨hc.made, hc.come, hb⟩, hcs⟩, lit := ?_ }
      refine fun hf => (h.lit hf).mono fun k ⟨d, hd, hk⟩ => ?_
      rcases List.mem_cons.mp (hperm.mem_iff.mp hd) with rfl | hd
      · exact ⟨_, List.mem_cons_self, hk⟩
      · exact ⟨d, List.mem_cons_of_mem _ hd, hk⟩
  | renewed hw =>
      obtain rfl := uncleared hw
      exact { h with }
  | begun hw hp =>
      obtain rfl := uncleared hw
      exact { h with
        underway := List.forall_mem_cons.mpr ⟨.of_prepare h.plain hp _ _, h.underway⟩
        lit := fun hf => (h.lit hf).mono fun k ⟨d, hd, hk⟩ => ⟨d, List.mem_cons_of_mem _ hd, hk⟩ }
  | @finished c cs q w hperm hg =>
      obtain ⟨hc, hcs⟩ := split hperm
      have hlit hf := hg.abreast h hc (h.lit_first hperm hf)
      obtain ⟨_, rfl⟩ := hg.session_eq
      exact { hsound with lenient := h.lenient, underway := hcs, lit := hlit }
  | @paused c cs q w pause pending hperm hg =>
      obtain ⟨hc, hcs⟩ := split hperm
      obtain ⟨-, ran, e, hpending⟩ := hg.abreast h hc (anything c)
      have hlit hf := (hg.abreast h hc (h.lit_first hperm hf)).1
      obtain ⟨_, rfl⟩ := hg.session_eq
      refine { hsound with
        lenient := h.lenient
        underway := List.forall_mem_cons.mpr ⟨hc.further hpending, hcs⟩
        lit := fun hf => (hlit hf).mono fun k hk => ?_ }
      obtain ⟨d, hd, hk⟩ | hk := hk
      · exact ⟨d, List.mem_cons_of_mem _ hd, hk⟩
      · exact ⟨_, List.mem_cons_self, hk⟩
  | @superseded c cs q w e hperm he hg =>
      have hfault := hg.abreast h (split hperm).1 (anything c)
      exact absurd (he.symm.trans hfault) Bool.false_ne_true
  | @failed c cs q w w' e hperm he hg hw =>
      obtain ⟨_, rfl⟩ := hg.session_eq
      exact { hsound with
        lenient := h.lenient
        underway := (split hperm).2
        lit := fun hf => nomatch hf }

theorem Leads.abreast (h : v.Leads v') (hv : v.Abreast) : v'.Abreast := by
  induction h with
  | refl => exact hv
  | tail _ hm ih => exact hm.abreast ih

end Stage

/-! ### At a desk -/

namespace Scene

variable {s t : Scene Desk}

/-- Whether a desk is set up with a session for an empty workspace, whose cycles run side by side,
whose rules are plain, whose waits fail by faults only, and which lightens colours by whole
numbers. -/
structure OpensAbreast (s : Scene Desk) : Prop where
  workspace : ∃ v created, s.workspace = Workspace.new v created
  sessions : ∃ q : Session, s.audience.sessions = [q] ∧ q.settings.supersedes = false ∧
    q.compiler.Plain ∧ q.pacing.Fair ∧ q.highlighter.shade.Whole
  ready : s.audience.ready = []
  waiting : s.audience.waiting = []
  civil : ∀ g, .guest g ∈ s.audience.listeners → g.Civil

/-- What a desk shows that is set up. -/
theorem OpensAbreast.exists_abreast (h : s.OpensAbreast) : ∃ v, s.Shows v ∧ v.Abreast := by
  obtain ⟨vocabulary, created, hw⟩ := h.workspace
  obtain ⟨q, hq, hs, hc, hp, -⟩ := h.sessions
  refine ⟨⟨q, s.workspace, []⟩, ⟨hq, rfl, ?_, (fun _ hc => nomatch hc), h.civil⟩, ?_⟩
  · rw [h.ready, h.waiting]
    exact .refl []
  · exact {
      filed := hw ▸ Workspace.filed_new _ _
      plain := hc
      fair := hp
      lenient := hs
      underway := fun _ hc => nomatch hc
      lit := fun _ => hw ▸ (Workspace.unlit_new _ _).within }

/-- What happens at a desk is also something that happens where somebody highlights blocks
besides. -/
theorem Later.handled {h : Highlighter} (ht : s.Later t) : Handled h s t := by
  induction ht with
  | refl => exact .refl
  | tail _ he ih =>
      obtain ⟨e, -, rfl⟩ := he
      exact ih.tail ⟨.event e, rfl⟩

/-- **Every highlight is given back.**  Whatever has happened, as long as no cycle has ended with a
fault: whenever no cycle is under way, nothing is saved of any block and each is shown in the colour
of its type. -/
theorem OpensAbreast.given_back (hs : s.OpensAbreast) (ht : s.Later t)
    (hfault : ∀ q ∈ t.audience.sessions, q.fault = none) (hcycles : t.cycles = []) :
    ∀ k b, t.workspace.find? k = some b → b.savedColour = .null ∧
      ∃ d, t.workspace.declarationOf b = .ok d ∧ b.colour = .text d.colour.hex := by
  intro k b hb
  obtain ⟨v, hv, habreast⟩ := hs.exists_abreast
  obtain ⟨v', hv', hleads⟩ := ht.from habreast.toSound ⟨v, hv, .refl⟩
  have hnone : v'.session.fault = none :=
    hfault _ (hv'.sessions ▸ List.mem_singleton_self _)
  have hunlit : b.savedColour = .null := by
    by_contra hlit
    rw [hv'.workspace] at hb
    obtain ⟨c, hc, -⟩ := (hleads.abreast habreast).lit hnone k b hb
      (by simpa [Block.isHighlighted] using hlit)
    rw [← hv'.mem_cycles, hcycles] at hc
    cases hc
  obtain ⟨q, hq, -, -, -, hw⟩ := hs.sessions
  have hopens : s.OpensWith q.highlighter :=
    ⟨hs.workspace, fun q' hq' => by rw [hq, List.mem_singleton] at hq'; rw [hq'], hs.civil⟩
  obtain ⟨d, hd, hpainted⟩ := hopens.colours_kept hw ht.handled k b hb
  refine ⟨hunlit, d, hd, ?_⟩
  obtain ⟨-, hcolour⟩ | ⟨hsaved, -⟩ := hpainted
  · exact hcolour
  · rw [hunlit] at hsaved
    cases hsaved

/-! ### Two cycles on one block -/

/-- A session whose cycles run side by side, and whose waits last. -/
def mingling : Session := { Session.greeting with settings := { supersede := .bool false } }

/-- A desk with that session. -/
def commons : Scene Desk where
  workspace := Workspace.new .stock 0
  audience := { sessions := [mingling] }

theorem opensAbreast_commons : commons.OpensAbreast where
  workspace := ⟨_, _, rfl⟩
  sessions := ⟨_, rfl, rfl, Compiler.plain_greeting, (fun _ _ h => nomatch h), fun _ => ⟨40, rfl⟩⟩
  ready := rfl
  waiting := rfl
  civil _ h := nomatch h

/-- The cycle with a number, behind its wait. -/
def greetedCycle (n : Nat) : Cycle := { greetingCycle n with pending := [.restore (.text "hi")] }

/-- Whether a session goes on like that one, and no cycle of it has failed. -/
structure Mingling (q : Session) : Prop where
  fault : q.fault = none
  lenient : q.settings.supersedes = false
  pacing : q.pacing = mingling.pacing
  highlighter : q.highlighter = mingling.highlighter

/-- Whether there is the block. -/
def Stays (w : Workspace) : Prop := (w.find? (.text "hi")).isSome = true

theorem keeping_stays (h : Highlighter) : h.Keeping Stays :=
  .of_colours h fun w k colour saved hw => by
    change ((w.table.modify k _).find? _).isSome = true
    rw [Table.find?_modify]
    split
    · rw [Option.isSome_map]
      exact hw
    · exact hw

/-- Whether the block is highlighted. -/
def Lit (w : Workspace) : Prop := ∃ b, w.find? (.text "hi") = some b ∧ b.isHighlighted = true

theorem Lit.stays {w : Workspace} (h : Lit w) : Stays w := by
  obtain ⟨b, hb, -⟩ := h
  exact Option.isSome_of_mem hb

/-- What is at the desk as long as nothing fails there: the cycles that can go on and those that
wait. -/
structure Mingles (s : Scene Desk) (ready waiting : List Cycle) : Prop where
  later : commons.Later s
  shows : ∃ v, s.Shows v ∧ Mingling v.session
  stays : Stays s.workspace
  ready : s.audience.ready = ready
  waiting : s.audience.waiting = waiting

section

variable {q : Session} (hq : Mingling q) {r : Scene Trace}

include hq

theorem Mingling.steady {generation : Value} : (Session.clock q).Steady generation := by
  rw [Session.clock, hq.lenient, if_neg Bool.false_ne_true]
  exact Clock.steady_nil _

omit hq in
theorem keeps_proceed_stays (c : Cycle) :
    Keeps (fun s : Scene Trace => Stays s.workspace) (Session.proceed q c) := by
  unfold Session.proceed
  split
  · exact Keeps.throw _
  · exact keeps_advance (fun h _ => keeping_stays h) _ _

/-- A cycle that begins comes to its wait, and the block is highlighted. -/
theorem Mingling.ends_proceed_begun (n : Nat)
    (hr : r.workspace.PaintedBy mingling.highlighter.shade) (hstays : Stays r.workspace) :
    Ends (Session.proceed q (greetingCycle n)) r
      (fun p t => p = .paused .lasting [.restore (.text "hi")] ∧ Lit t.workspace)
      fun _ _ => False := by
  change Ends (advance (Session.terms q (greetingCycle n)) (Session.clock q)
    [.highlight (.text "hi"), .call (.text "greet") [], .sleep (.literal (.int 1)),
      .restore (.text "hi")]) r _ _
  have hlight : Ends (q.highlighter.activate (.text "hi")) r _ _ :=
    (Highlighter.ends_activate_painted (hq.highlighter ▸ fun _ => ⟨40, rfl⟩)
      (hq.highlighter ▸ hr)).and ((keeping_stays q.highlighter).activate (.text "hi") r hstays)
  refine ends_advance_steady hq.steady (Ends.bind (hlight.mono (fun _ t ht => Ends.pure ?_)
    fun _ _ he => nomatch he.1.1))
  obtain ⟨b, hb⟩ := Option.isSome_iff_exists.mp ht.2
  have hlit : Lit t.workspace := ⟨b, hb, ht.1.2 _ b rfl hb⟩
  rw [if_pos rfl]
  refine fun clock hclock => ends_advance_steady hclock (Ends.bind
    (Run.ends_emit_ok rfl (Ends.pure ?_)))
  rw [if_pos rfl]
  refine fun clock hclock => ends_advance_steady hclock
    ((ends_perform_doze fun wait => congrFun hq.pacing wait).mono (fun pause u hu => ?_)
      fun _ _ he => he)
  obtain ⟨rfl, hw, -⟩ := hu
  rw [if_neg (by decide)]
  exact ⟨rfl, hw ▸ hlit⟩

/-- A cycle that goes on behind its wait comes to its end. -/
theorem Mingling.ends_proceed_greeted (n : Nat)
    (hr : r.workspace.PaintedBy mingling.highlighter.shade) (hstays : Stays r.workspace) :
    Ends (Session.proceed q (greetedCycle n)) r (fun p t => p = .finished ∧ Stays t.workspace)
      fun _ _ => False := by
  have hends : Ends (advance (Session.terms q (greetedCycle n)) (Session.clock q)
      [.restore (.text "hi")]) r (fun p _ => p = .finished) fun _ _ => False := by
    have hrestore : Ends (q.highlighter.restore (.text "hi")) r _ _ :=
      Highlighter.ends_restore_painted (hq.highlighter ▸ hr)
    refine ends_advance_steady hq.steady (Ends.bind (hrestore.mono (fun _ t _ => Ends.pure ?_)
      fun _ _ he => nomatch he.1))
    rw [if_pos rfl]
    exact fun clock _ => Ends.pure rfl
  exact (hends.and (keeps_proceed_stays (greetedCycle n) r hstays)).mono (fun _ _ ht => ht)
    fun _ _ he => he.1

end

namespace Mingles

variable {c : Cycle} {ready waiting : List Cycle}

theorem painted (h : Mingles s ready waiting) :
    s.workspace.PaintedBy mingling.highlighter.shade := by
  have hopens : commons.OpensWith mingling.highlighter :=
    ⟨⟨_, _, rfl⟩, fun q hq => List.mem_singleton.mp hq ▸ rfl, fun _ h => nomatch h⟩
  exact hopens.colours_kept (fun _ => ⟨40, rfl⟩) h.later.handled

/-- In the turn of a cycle nothing else changes in the queue. -/
theorem ends_turn (h : Mingles s (c :: ready) waiting) {p : Progress} {Q : Workspace → Prop}
    (hc : ∀ {q : Session} {r : Scene Trace}, Mingling q →
      r.workspace.PaintedBy mingling.highlighter.shade → Stays r.workspace →
      Ends (Session.proceed q c) r (fun p' t => p' = p ∧ Q t.workspace) fun _ _ => False)
    {good : Unit → Scene Desk → Prop} {bad : Error → Scene Desk → Prop}
    (hp : ∀ (t : Scene Desk) v, t.Shows v → Mingling v.session → Q t.workspace →
      t.audience.ready = ready → t.audience.waiting = waiting → Ends (match p with
        | .finished => Session.complete c
        | .paused .lasting pending =>
          Act.arrange fun d => { d with waiting := d.waiting ++ [{ c with pending }] }
        | .paused _ pending =>
          Act.arrange fun d => { d with ready := d.ready ++ [{ c with pending }] }) t good bad) :
    Ends Session.turn s good bad := by
  obtain ⟨v, hs, hq⟩ := h.shows
  have hpainted := h.painted
  have hstays := h.stays
  rw [hs.workspace] at hpainted hstays
  refine hs.ends_turn h.ready fun _ hown hu => ?_
  obtain ⟨number, generation, program, pending, broken⟩ := c
  obtain rfl : number = 0 := hown
  refine Ends.bind (hu.ends_session? (Ends.bind (Act.ends_attempt ?_)))
  refine hu.ends_traced fun r hr _ => ?_
  refine (hc hq (hr ▸ hpainted) (hr ▸ hstays)).mono (fun p' t ht u hu hqueue => ?_)
    fun _ _ he => he.elim
  obtain ⟨rfl, hQ⟩ := ht
  have hcontinue := hp u _ hu ⟨hq.fault, hq.lenient, hq.pacing, hq.highlighter⟩
    (hu.workspace ▸ hQ) hqueue.1 (hqueue.2.trans h.waiting)
  cases p' with
  | finished => exact hcontinue
  | paused pause pending => cases pause <;> exact hcontinue

/-- A cycle that begins stands among those that wait after its turn, and the block is highlighted. -/
theorem turn_begun {n : Nat} (h : Mingles s (greetingCycle n :: ready) waiting) :
    Mingles (stateAfter Session.Event.turn.act s) ready (waiting ++ [greetedCycle n]) ∧
      Lit (stateAfter Session.Event.turn.act s).workspace := by
  let P (t : Scene Desk) := (∃ v, t.Shows v ∧ Mingling v.session) ∧ Lit t.workspace ∧
    t.audience.ready = ready ∧ t.audience.waiting = waiting ++ [greetedCycle n]
  have hends : Ends Session.turn s (fun _ t => P t) fun _ t => P t :=
    h.ends_turn (fun hq hr hstays => hq.ends_proceed_begun n hr hstays)
      fun t v ht hq hlit hready hwaiting => Ends.modify ⟨⟨_, ht.queued (c := greetedCycle n) rfl rfl rfl
        (by
          rw [← List.append_assoc]
          exact List.perm_append_singleton _ _), hq⟩, hlit, hready, congrArg (· ++ _) hwaiting⟩
  obtain ⟨hshows, hlit, hready, hwaiting⟩ := hends.stateAfter (P := P)
  exact ⟨⟨h.later.event (e := .turn) trivial, hshows, hlit.stays, hready, hwaiting⟩, hlit⟩

/-- A cycle that goes on behind its wait is gone after its turn. -/
theorem turn_greeted {n : Nat} (h : Mingles s (greetedCycle n :: ready) waiting) :
    Mingles (stateAfter Session.Event.turn.act s) ready waiting := by
  let P (t : Scene Desk) := (∃ v, t.Shows v ∧ Mingling v.session) ∧ Stays t.workspace ∧
    t.audience.ready = ready ∧ t.audience.waiting = waiting
  have hends : Ends Session.turn s (fun _ t => P t) fun _ t => P t :=
    h.ends_turn (fun hq hr hstays => hq.ends_proceed_greeted n hr hstays)
      fun t v ht hq hstays hready hwaiting =>
      Ends.modify ⟨⟨_, ht.update (·.completed (greetedCycle n)),
        ⟨hq.fault, hq.lenient, hq.pacing, hq.highlighter⟩⟩, hstays, hready, hwaiting⟩
  obtain ⟨hshows, hstays, hready, hwaiting⟩ := hends.stateAfter (P := P)
  exact ⟨h.later.event (e := .turn) trivial, hshows, hstays, hready, hwaiting⟩

/-- The first cycle that waits goes to the end of the queue. -/
theorem wake {n : Nat} (h : Mingles s ready (greetedCycle n :: waiting)) :
    Mingles (stateAfter (Session.Event.wake 0 none).act s) (ready ++ [greetedCycle n]) waiting := by
  obtain ⟨v, hs, hq⟩ := h.shows
  let d : Desk := { s.audience with
    ready := s.audience.ready ++ (s.audience.waiting[0]?.map ({ · with broken := none })).toList
    waiting := s.audience.waiting.eraseIdx 0 }
  have hready : d.ready = ready ++ [greetedCycle n] := by
    change s.audience.ready ++ (s.audience.waiting[0]?.map _).toList = _
    rw [h.ready, h.waiting]
    rfl
  have hwaiting : d.waiting = waiting := by
    change s.audience.waiting.eraseIdx 0 = _
    rw [h.waiting]
    rfl
  have hcycles := hs.cycles
  rw [h.ready, h.waiting, List.append_cons, ← hready, ← hwaiting] at hcycles
  exact ⟨h.later.event (e := .wake 0 none) (fun _ he => nomatch he),
    ⟨v, ⟨hs.sessions, hs.workspace, hcycles, hs.own, hs.civil⟩, hq⟩, h.stays, hready, hwaiting⟩

end Mingles

/-- What is at the desk while cycles are started. -/
structure Gathers (s : Scene Desk) (n : Nat) (ready : List Cycle) : Prop where
  later : commons.Later s
  shows : ∃ v, s.Shows v ∧ Mingling v.session ∧ v.session.compiler = .greeting ∧
    v.session.generation = n ∧ v.workspace.Lone "hi" greeter ∧ v.cycles.length = ready.length
  loop : s.audience.loop = true
  ready : s.audience.ready = ready

theorem exists_gathers : ∃ s, Gathers s 0 [] := by
  obtain ⟨hlone, ha⟩ := after_creation (o := commons) rfl rfl
  refine ⟨_, .single ⟨creation, trivial, rfl⟩, ⟨⟨mingling, _, []⟩, ⟨?_, rfl, ?_, ?_, ?_⟩,
    ⟨rfl, rfl, rfl, rfl⟩, rfl, rfl, hlone, rfl⟩, ?_, ?_⟩
  · rw [ha]; rfl
  · rw [ha]; exact .refl []
  · exact fun _ h => nomatch h
  · rw [ha]; exact fun _ h => nomatch h
  · rw [ha]; rfl
  · rw [ha]; rfl

namespace Gathers

variable {n : Nat} {ready : List Cycle}

theorem run (h : Gathers s n ready) :
    Gathers (stateAfter Session.Event.run.act s) (n + 1) (ready ++ [greetingCycle (n + 1)]) := by
  obtain ⟨v, hs, hq, hcompiler, rfl, hlone, hlength⟩ := h.shows
  obtain ⟨text, hp⟩ := exists_prepare hlone
  have hrun := hs.ends_runCode (unlit_lone hlone) h.loop (hcompiler ▸ hp)
  obtain ⟨hs, hloop, hready⟩ := (Ends.bind (f := fun _ => pure ()) (hrun.mono
    (fun _ _ ht => Ends.pure ht) fun _ _ he => he.elim)).stateAfter (x := Session.Event.run.act)
  refine ⟨h.later.event (e := .run) trivial, ⟨_, hs, ⟨hq.fault, hq.lenient, hq.pacing, hq.highlighter⟩,
    hcompiler, rfl, hlone, ?_⟩, hloop, ?_⟩
  · rw [List.length_cons, hlength, List.length_append, List.length_singleton]
  · rw [hready, h.ready]
    rfl

theorem mingles (h : Gathers s n ready) : Mingles s ready [] := by
  obtain ⟨v, hs, hq, -, -, hlone, hlength⟩ := h.shows
  have hstays : Stays s.workspace := by
    rw [Stays, hs.workspace]
    exact Option.isSome_of_mem hlone.block?_self
  refine ⟨h.later, ⟨v, hs, hq⟩, hstays, h.ready, ?_⟩
  have hcycles := hs.cycles.length_eq
  rw [List.length_append, h.ready, hlength] at hcycles
  exact List.length_eq_zero_iff.mp (by omega)

end Gathers

/-- Two cycles wait in the statement of one block, which is highlighted.  Once both have come to
their ends, the block has its colour again. -/
theorem given_back_mingling : ∃ s t : Scene Desk, commons.Later s ∧
    s.audience.waiting = [greetedCycle 1, greetedCycle 2] ∧ Lit s.workspace ∧
    s.Later t ∧ t.cycles = [] ∧
    ∃ b d, t.workspace.find? (.text "hi") = some b ∧ b.savedColour = .null ∧
      t.workspace.declarationOf b = .ok d ∧ b.colour = .text d.colour.hex := by
  obtain ⟨_, hs⟩ := exists_gathers
  obtain ⟨s, hwaiting, hlit⟩ : ∃ s, Mingles s [] [greetedCycle 1, greetedCycle 2] ∧ Lit s.workspace :=
    ⟨_, hs.run.run.mingles.turn_begun.1.turn_begun⟩
  have woken : (Session.Event.wake 0 none).Fair := fun _ he => nomatch he
  have hdone := hwaiting.wake.wake.turn_greeted.turn_greeted
  have hlater := (((Later.event (s := s) .refl woken).event woken).event (e := .turn) trivial).event
    (e := .turn) trivial
  generalize stateAfter Session.Event.turn.act _ = t at hdone hlater
  obtain ⟨v, hshows, hq⟩ := hdone.shows
  have hcycles : t.cycles = [] := by
    rw [cycles, hdone.ready, hdone.waiting]
    rfl
  obtain ⟨b, hb⟩ := Option.isSome_iff_exists.mp hdone.stays
  have hfault : ∀ q ∈ t.audience.sessions, q.fault = none := fun q hq' => by
    rw [hshows.sessions, List.mem_singleton] at hq'
    exact hq' ▸ hq.fault
  obtain ⟨hsaved, d, hd, hcolour⟩ :=
    opensAbreast_commons.given_back hdone.later hfault hcycles _ b hb
  exact ⟨s, t, hwaiting.later, hwaiting.waiting, hlit, hlater, hcycles, b, d, hb, hsaved, hd, hcolour⟩

end Scene

end Blockwork
