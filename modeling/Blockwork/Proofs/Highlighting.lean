import Blockwork.Proofs.Lasting
import Blockwork.Proofs.Plain
import Blockwork.Proofs.Stepping

/-!
# Highlighting

Which blocks are highlighted while a program runs (`Workspace.LitWithin`).  In a program that is
prepared for highlighting, the steps that are left tell it at every point: no block is, unless they
restore one before they highlight another one, and then no other block is (`mark`).  Running steps
keeps to that (`ends_advance_lit`).

Edits highlight no blocks (`Workspace.lasting_litWithin`), and restoring all highlights leaves none,
as every block is found under its own id (`Workspace.Filed`).
-/

namespace Blockwork

namespace Workspace

/-- Whether only blocks under certain keys are highlighted. -/
def LitWithin (w : Workspace) (lit : Key → Prop) : Prop :=
  ∀ k b, w.find? k = some b → b.isHighlighted = true → lit k

/-- Whether no block is highlighted. -/
def Unlit (w : Workspace) : Prop := w.LitWithin fun _ => False

variable {w : Workspace} {lit lit' : Key → Prop}

theorem LitWithin.mono (h : w.LitWithin lit) (hl : ∀ k, lit k → lit' k) : w.LitWithin lit' :=
  fun k b hb hlit => hl k (h k b hb hlit)

theorem Unlit.within (h : w.Unlit) : w.LitWithin lit := h.mono fun _ => False.elim

/-- Edits highlight no blocks. -/
theorem lasting_litWithin (lit : Key → Prop) : Lasting fun w => w.LitWithin lit where
  changed {w} k f hf h j b hb hlit := by
    obtain ⟨c, hc, rfl | rfl⟩ := find?_update_exists hb
    · exact h j _ hc hlit
    · refine h j c hc ?_
      rwa [Block.isHighlighted, (hf c).2.2.2] at hlit
  added {w} k b n hb h j c hc hlit := by
    change (w.table.put k b).find? j = some c at hc
    rw [Table.find?_put] at hc
    split at hc
    · obtain rfl := Option.some.inj hc
      rw [Block.isHighlighted, hb.saved] at hlit
      cases hlit
    · exact h j c hc hlit
  taken {w} k h j c hc hlit := by
    change (w.table.erase k).find? j = some c at hc
    rw [Table.find?_erase] at hc
    split at hc
    · cases hc
    · exact h j c hc hlit
  dragged _ h := h

theorem unlit_new (v : Vocabulary) (n : Nat) : (Workspace.new v n).Unlit := fun k b hb => by
  rw [show (Workspace.new v n).find? k = none from Table.find?_eq _ _] at hb
  cases hb

end Workspace

/-! ### Highlighting and restoring -/

namespace Highlighter

variable {h : Highlighter} {id : Value} {s : Scene Trace} {lit : Key → Prop}

/-- Highlighting a block highlights no other one. -/
theorem ends_activate_lit (hs : s.workspace.Filed) (hlit : s.workspace.LitWithin lit) :
    Ends (h.activate id) s
      (fun _ t => t.workspace.Filed ∧ t.workspace.LitWithin fun k => lit k ∨ id.Names k)
      fun e t => t.workspace.Filed ∧ e.isFault = true := by
  unfold activate
  refine Ends.bind (Act.ends_ofExcept (fun k hk => Ends.bind (Ends.get ?_))
    fun e he => ⟨hs, id.failsBy_toKey .faults e he⟩)
  split
  · exact Ends.pure ⟨hs, hlit.mono fun _ => .inl⟩
  · rename_i b _
    extract_lets own
    have hsaved : Workspace.Filed { s.workspace with
        table := s.workspace.table.modify k fun c => { c with savedColour := own } } :=
      hs.modify k fun _ => rfl
    refine Ends.bind (Act.ends_edit (Ends.modify (Ends.bind (Act.ends_ofExcept (fun c hc => ?_)
      fun e he => ⟨hsaved, h.shade.faults_lightenText _ e he⟩))))
    refine Ends.bind (Act.ends_edit (Ends.modify (Ends.bind (ends_announce fun s' hw _ _ => ?_))))
    have hpainted := hsaved.modify k (f := fun b => { b with colour := .text c }) fun _ => rfl
    refine Ends.pure ⟨by rw [hw]; exact hpainted, fun j d hd hj => ?_⟩
    rw [hw] at hd
    obtain ⟨hkj, -⟩ | ⟨hkj, hd⟩ := Workspace.find?_update hd
    · exact .inr ⟨k, hk, hkj⟩
    · obtain ⟨hkj', -⟩ | ⟨-, hd⟩ := Workspace.find?_update hd
      · exact .inr ⟨k, hk, hkj'⟩
      · exact .inl (hlit j d hd hj)

/-- After a block is restored it is not highlighted any more. -/
theorem ends_restore_lit (hs : s.workspace.Filed) (hlit : s.workspace.LitWithin lit) :
    Ends (h.restore id) s
      (fun _ t => t.workspace.Filed ∧ (t.workspace.LitWithin fun k => lit k ∧ ¬ id.Names k) ∧
        t.audience.lines = s.audience.lines)
      fun e t => (∃ e, id.toKey = .error e) ∧ t = s ∧ e.isFault = true := by
  unfold restore
  refine Ends.bind (Act.ends_ofExcept (fun k hk => Ends.bind (Ends.get ?_))
    fun e he => ⟨⟨e, he⟩, rfl, id.failsBy_toKey .faults e he⟩)
  have found {j : Key} (hj : id.Names j) : (k == j) = true := by
    obtain ⟨k', hk', hkj⟩ := hj
    rwa [Except.ok.inj (hk'.symm.trans hk)] at hkj
  split
  · rename_i hnone
    refine Ends.pure ⟨hs, fun j c hc hj => ⟨hlit j c hc hj, fun hn => ?_⟩, rfl⟩
    have hk : s.workspace.find? k = some c := by
      rw [← hc]
      exact s.workspace.table.find?_congr (found hn)
    rw [hk, Option.filter_some, if_pos hj] at hnone
    cases hnone
  · refine Ends.bind (Act.ends_edit (Ends.modify (Ends.bind (ends_announce fun s' hw hl _ => ?_))))
    refine Ends.pure ⟨hw ▸ hs.modify k fun _ => rfl, fun j d hd hj => ?_, hl⟩
    rw [hw] at hd
    obtain ⟨-, c, -, rfl⟩ | ⟨hkj, hd⟩ := Workspace.find?_update hd
    · cases hj
    · refine ⟨hlit j d hd hj, fun hn => ?_⟩
      rw [found hn] at hkj
      cases hkj

theorem ends_restoreEach {ks : List Key} (hs : s.workspace.Filed)
    (hlit : s.workspace.LitWithin fun k => ∃ j ∈ ks, (j == k) = true) :
    Ends (h.restoreEach ks) s (fun _ t => t.workspace.Filed ∧ t.workspace.Unlit ∧
      t.audience.lines = s.audience.lines) fun _ _ => False := by
  -- over the keys that are left, under which alone a block may still be highlighted
  induction ks generalizing s with
  | nil =>
      have hnone (k : Key) : ¬ ∃ j ∈ ([] : List Key), (j == k) = true := by
        rintro ⟨_, hj, -⟩
        cases hj
      exact Ends.pure ⟨hs, hlit.mono hnone, rfl⟩
  | cons j ks ih =>
      unfold restoreEach
      refine Ends.bind (Ends.get ?_)
      split
      · rename_i hnone
        refine ih hs fun k b hb hk => ?_
        obtain ⟨i, hi, hik⟩ := hlit k b hb hk
        rcases List.mem_cons.mp hi with rfl | hi
        · rw [show s.workspace.find? i = some b from (s.workspace.table.find?_congr hik).trans hb,
            Option.filter_some, if_pos hk] at hnone
          cases hnone
        · exact ⟨i, hi, hik⟩
      · rename_i b hb
        have hj := hs j b (Option.filter_eq_some_iff.mp hb).1
        refine Ends.bind ((ends_restore_lit hs hlit).mono (fun _ t ht => ?_) fun e t he => ?_)
        · obtain ⟨ht, hlit, hl⟩ := ht
          refine Ends.bind ((ih ht (hlit.mono fun k hk => ?_)).mono (fun _ u hu => ?_)
            fun _ _ he => he)
          · obtain ⟨⟨i, hi, hik⟩, hn⟩ := hk
            rcases List.mem_cons.mp hi with rfl | hi
            · exact absurd (hj.congr hik) hn
            · exact ⟨i, hi, hik⟩
          · exact Ends.pure ⟨hu.1, hu.2.1, hu.2.2.trans hl⟩
        · obtain ⟨⟨e', he'⟩, -⟩ := he
          obtain ⟨i, hi, -⟩ := hj
          cases hi.symm.trans he'

/-- Restoring all highlights leaves none. -/
theorem ends_restoreAll (hs : s.workspace.Filed) : Ends h.restoreAll s
    (fun _ t => t.workspace.Filed ∧ t.workspace.Unlit ∧ t.audience.lines = s.audience.lines)
    fun _ _ => False := by
  refine Ends.bind (Ends.get (ends_restoreEach hs fun k b hb _ => ?_))
  obtain ⟨j, hj, hjk⟩ := Workspace.exists_mem_entries hb
  exact ⟨j, List.mem_map_of_mem hj, hjk⟩

/-- Where no block is highlighted there is nothing to restore. -/
theorem ends_restoreAll_unlit (hs : s.workspace.Unlit) :
    Ends h.restoreAll s (fun _ t => t = s) fun _ _ => False := by
  have each (ks : List Key) : Ends (h.restoreEach ks) s (fun _ t => t = s) fun _ _ => False := by
    induction ks with
    | nil => exact Ends.pure rfl
    | cons k ks ih =>
        unfold restoreEach
        refine Ends.bind (Ends.get ?_)
        split
        · exact ih
        · rename_i b hb
          obtain ⟨hfind, hlit⟩ := Option.filter_eq_some_iff.mp hb
          exact (hs k b hfind hlit).elim
  exact Ends.bind (Ends.get (each _))

/-- Whether highlighting and restoring blocks keeps a property of workspaces. -/
structure Keeping (h : Highlighter) (P : Workspace → Prop) : Prop where
  activate : ∀ id, Keeps (fun s : Scene Trace => P s.workspace) (h.activate id)
  restore : ∀ id, Keeps (fun s : Scene Trace => P s.workspace) (h.restore id)

/-- Whether a property of scenes stays when the colours of a block change and when something is
noted, whatever is seen. -/
structure Spares (P : Scene Trace → Prop) : Prop where
  seen : ∀ {s : Scene Trace} (audience : Trace), P s → P { s with audience }
  noted : ∀ {s : Scene Trace} (level : Level) (area : Area) (text : String), P s →
    P { s with host := s.host.note level area text }
  coloured : ∀ {s : Scene Trace} (k : Key) (colour saved : Block → Value), P s →
    P { s with workspace := { s.workspace with table := s.workspace.table.modify k fun b =>
      { b with colour := colour b, savedColour := saved b } } }

namespace Spares

variable {P : Scene Trace → Prop} (hP : Spares P) (h : Highlighter)

include hP

theorem keeps_announce (kind : Glow.Kind) (id colour : Value) :
    Keeps P (h.announce kind id colour) := fun _ hs => by
  refine Ends.bind (Ends.modify (Ends.modify ?_))
  dsimp only
  induction h.faulty with
  | zero => exact hP.seen _ hs
  | succ n ih => exact hP.noted _ _ _ ih

theorem keeps_activate (id : Value) : Keeps P (h.activate id) := fun s hs => by
  refine Ends.bind (Act.ends_ofExcept (fun k _ => Ends.bind (Ends.get ?_)) fun _ _ => hs)
  split
  · exact Ends.pure hs
  · rename_i b _
    have hsaved := hP.coloured k (·.colour)
      (fun _ => if b.isHighlighted then b.savedColour else b.colour) hs
    refine Ends.bind (Act.ends_edit (Ends.modify (Ends.bind (Act.ends_ofExcept (fun c _ => ?_)
      fun _ _ => hsaved))))
    refine Ends.bind (Act.ends_edit (Ends.modify (Ends.bind ?_)))
    have hpainted := hP.coloured k (fun _ => .text c) (·.savedColour) hsaved
    exact (hP.keeps_announce h _ _ _ _ hpainted).mono (fun _ _ ht => Ends.pure ht) fun _ _ ht => ht

theorem keeps_restore (id : Value) : Keeps P (h.restore id) := fun s hs => by
  refine Ends.bind (Act.ends_ofExcept (fun k _ => Ends.bind (Ends.get ?_)) fun _ _ => hs)
  split
  · exact Ends.pure hs
  · rename_i b _
    refine Ends.bind (Act.ends_edit (Ends.modify (Ends.bind ?_)))
    have hpainted := hP.coloured k (fun _ => b.savedColour) (fun _ => .null) hs
    exact (hP.keeps_announce h _ _ _ _ hpainted).mono (fun _ _ ht => Ends.pure ht) fun _ _ ht => ht

end Spares

/-- What stays when the colours of a block change is kept. -/
theorem Keeping.of_colours {P : Workspace → Prop} (h : Highlighter)
    (hP : ∀ w k (colour saved : Block → Value), P w →
      P { w with
        table := w.table.modify k fun b => { b with colour := colour b, savedColour := saved b } }) :
    h.Keeping P :=
  have spares : Spares fun s => P s.workspace := ⟨fun _ h => h, fun _ _ _ h => h, hP _⟩
  ⟨spares.keeps_activate h, spares.keeps_restore h⟩

theorem keeping_filed (h : Highlighter) : h.Keeping Workspace.Filed :=
  .of_colours h fun _ k _ _ hw => hw.modify k fun _ => rfl

/-- Restoring all highlights keeps what restoring each keeps. -/
theorem keeps_restoreAll {P : Scene Trace → Prop} (hP : ∀ id, Keeps P (h.restore id)) :
    Keeps P h.restoreAll := by
  have each (ks : List Key) : Keeps P (h.restoreEach ks) := by
    induction ks with
    | nil => exact Keeps.pure _
    | cons k ks ih =>
        refine Keeps.get.bind fun s => ?_
        split
        · exact ih
        · exact (hP _).bind fun _ => ih.bind fun _ => Keeps.pure _
  exact Keeps.get.bind fun _ => each _

theorem Keeping.restoreAll {P : Workspace → Prop} (hP : h.Keeping P) :
    Keeps (fun s : Scene Trace => P s.workspace) h.restoreAll := keeps_restoreAll hP.restore

/-- A block with a colour that can be lightened is highlighted. -/
theorem ends_activate_found {k : Key} (hk : id.toKey = .ok k) {b : Block}
    (hb : s.workspace.find? k = some b) (hnot : b.isHighlighted = false) (hne : b.colour ≠ .null)
    {c : String} (hc : h.shade.lightenText b.colour = .ok c) : Ends (h.activate id) s
      (fun _ t => (∃ b', t.workspace.find? k = some b' ∧ b'.isHighlighted = true) ∧
        t.audience.lines = s.audience.lines) fun _ _ => False := by
  unfold activate
  refine Ends.bind (Act.ends_ofExcept_ok hk (Ends.bind (Ends.get ?_)))
  rw [hb]
  dsimp only
  rw [hnot, if_neg Bool.false_ne_true]
  refine Ends.bind (Act.ends_edit (Ends.modify (Ends.bind (Act.ends_ofExcept_ok hc ?_))))
  refine Ends.bind (Act.ends_edit (Ends.modify (Ends.bind (ends_announce fun s' hw hl _ => ?_))))
  refine Ends.pure ⟨⟨{ b with savedColour := b.colour, colour := .text c }, ?_, ?_⟩, hl⟩
  · rw [hw]
    change ((s.workspace.table.modify k _).modify k _).find? k = _
    rw [Table.find?_modify, if_pos BEq.rfl, Table.find?_modify, if_pos BEq.rfl,
      show s.workspace.table.find? k = some b from hb]
    rfl
  · simpa [Block.isHighlighted] using hne

end Highlighter

/-! ### Steps -/

/-- The block that the steps to come restore before they highlight another one. -/
def Op.mark : List Op → Option Value
  | [] => none
  | .restore id :: _ => some id
  | .highlight _ :: _ => none
  | _ :: ops => mark ops

/-- Whether each block that steps highlight is restored by them before another one is highlighted,
and none is restored that is not highlighted. -/
def Op.Paired : List Op → Prop
  | [] => True
  | .restore _ :: ops => mark ops = none ∧ Paired ops
  | .highlight id :: ops => mark ops = some id ∧ Paired ops
  | _ :: ops => Paired ops

theorem Op.mark_cons_of_isPlain {op : Op} (h : op.isPlain = true) (ops : List Op) :
    mark (op :: ops) = mark ops := by
  cases op with
  | highlight _ => cases h
  | restore _ => cases h
  | _ => rfl

theorem Op.paired_cons_of_isPlain {op : Op} (h : op.isPlain = true) (ops : List Op) :
    Paired (op :: ops) ↔ Paired ops := by
  cases op with
  | highlight _ => cases h
  | restore _ => cases h
  | _ => exact Iff.rfl

/-- Whether waits fail by faults only. -/
def Pacing.Fair (p : Pacing) : Prop := ∀ wait, Faults (p wait)

section

variable {t : Terms} {s : Scene Trace}

/-- A plain step leaves the workspace as it is, and only a wait pauses. -/
theorem Op.ends_perform_plain (hd : ∀ d ∈ t.definitions, d.Honest) (hp : t.pacing.Fair) {op : Op}
    (ho : op.isPlain = true) : Ends (op.perform t) s
      (fun pause s' => s'.workspace = s.workspace ∧ (pause ≠ .over → ∃ e, op = .sleep e))
      fun e s' => s'.workspace = s.workspace ∧ e.isFault = true := by
  have evaluated (e : Expr) {good : Value → Scene Trace → Prop}
      (hg : ∀ v s', s'.workspace = s.workspace → good v s') :
      Ends (Run.emit (e.eval t.definitions)) s good
        fun e s' => s'.workspace = s.workspace ∧ e.isFault = true :=
    Run.ends_emit ((Expr.ends_eval_honest hd e _).mono (fun v _ _ => hg v _ rfl)
      fun _ _ he => ⟨rfl, he⟩)
  cases op with
  | call name args =>
      exact Ends.bind (evaluated _ fun _ s' hs => Ends.pure ⟨hs, fun h => absurd rfl h⟩)
  | expr e =>
      exact Ends.bind (evaluated _ fun _ s' hs => Ends.pure ⟨hs, fun h => absurd rfl h⟩)
  | sleep e =>
      refine Ends.bind (evaluated _ fun v s' hs => Ends.bind (Act.ends_ofExcept (fun x _ => ?_)
        fun e he => ⟨hs, v.failsBy_toFloat .faults e he⟩))
      refine Ends.bind (Ends.get (Ends.bind (Ends.modify ?_)))
      exact Act.ends_ofExcept (fun _ _ => ⟨hs, fun _ => ⟨e, rfl⟩⟩) fun e he => ⟨hs, hp _ e he⟩
  | highlight _ => cases ho
  | restore _ => cases ho

/-- What highlighting and restoring keeps, whatever is seen, is kept whatever steps are run. -/
theorem keeps_steps {P : Scene Trace → Prop}
    (seen : ∀ {s : Scene Trace} (audience : Trace), P s → P { s with audience })
    (activate : ∀ h ∈ t.highlighter, ∀ id, Keeps P (h.activate id))
    (restore : ∀ h ∈ t.highlighter, ∀ id, Keeps P (h.restore id)) (clock : Clock) (ops : List Op) :
    Keeps P (advance t clock ops) := by
  have emitted {α : Type} (e : Emit α) : Keeps P (Run.emit e) := fun _ hs =>
    Run.ends_emit ((Ends.self _ _).mono (fun _ _ _ => seen _ hs) fun _ _ _ => seen _ hs)
  have performed (op : Op) : Keeps P (op.perform t) := by
    cases op with
    | call name args => exact (emitted _).bind fun _ => Keeps.pure _
    | expr e => exact (emitted _).bind fun _ => Keeps.pure _
    | sleep e =>
        refine (emitted _).bind fun v => (Act.keeps_ofExcept _).bind fun x => Keeps.get.bind ?_
        exact fun _ => Keeps.bind (fun _ hs => Ends.modify (seen _ hs)) fun _ => Act.keeps_ofExcept _
    | highlight id => exact fun s hs => Op.ends_highlight hs fun h hh => activate h hh id s hs
    | restore id => exact fun s hs => Op.ends_restore hs fun h hh => restore h hh id s hs
  induction ops generalizing clock with
  | nil => exact Keeps.pure _
  | cons op ops ih =>
      intro s hs
      refine ends_advance_cons (fun _ _ _ => hs) ((performed op s hs).mono (fun pause u hu => ?_)
        fun _ _ hu => hu)
      split
      · exact ih _ u hu
      · exact hu

/-- What highlighting and restoring keeps is kept whatever steps are run. -/
theorem keeps_advance {P : Workspace → Prop} (hP : ∀ h ∈ t.highlighter, h.Keeping P) (clock : Clock)
    (ops : List Op) : Keeps (fun s : Scene Trace => P s.workspace) (advance t clock ops) :=
  keeps_steps (fun _ h => h) (fun h hh => (hP h hh).activate) (fun h hh => (hP h hh).restore) clock ops

/-- Whether the block under a key may be highlighted besides others, where only certain steps are
left. -/
def Op.MayLight (lit : Key → Prop) (ops : List Op) (k : Key) : Prop :=
  lit k ∨ ∃ id ∈ mark ops, id.Names k

/-- One step leaves highlighted, besides others, only the block that the steps after it restore. -/
theorem Op.ends_perform_lit (hd : ∀ d ∈ t.definitions, d.Honest) (hp : t.pacing.Fair) {op : Op}
    {ops : List Op} (hpaired : Paired (op :: ops)) (hs : s.workspace.Filed)
    {lit : Key → Prop} (hlit : s.workspace.LitWithin (MayLight lit (op :: ops)))
    {h : Highlighter} (hh : t.highlighter = some h) : Ends (op.perform t) s
      (fun pause s' => (s'.workspace.Filed ∧ s'.workspace.LitWithin (MayLight lit ops)) ∧
        Paired ops ∧ (pause ≠ .over → ∃ e, op = .sleep e))
      fun e s' => s'.workspace.Filed ∧ e.isFault = true := by
  -- a plain step changes neither what is highlighted nor what is restored next
  have plain (ho : op.isPlain = true) : Ends (op.perform t) s
      (fun pause s' => (s'.workspace.Filed ∧ s'.workspace.LitWithin (MayLight lit ops)) ∧
        Paired ops ∧ (pause ≠ .over → ∃ e, op = .sleep e))
      fun e s' => s'.workspace.Filed ∧ e.isFault = true := by
    unfold MayLight at hlit
    rw [mark_cons_of_isPlain ho] at hlit
    rw [paired_cons_of_isPlain ho] at hpaired
    refine (ends_perform_plain hd hp ho).mono (fun pause s' hs' => ?_) fun e s' hs' => ?_
    · rw [hs'.1]
      exact ⟨⟨hs, hlit⟩, hpaired, hs'.2⟩
    · exact ⟨hs'.1 ▸ hs, hs'.2⟩
  cases op with
  | highlight id =>
      obtain ⟨hmark, hpaired⟩ := hpaired
      unfold perform
      rw [hh]
      refine Ends.bind ((Highlighter.ends_activate_lit hs hlit).mono
        (fun _ s' hs' => Ends.pure ?_) fun e s' he => he)
      refine ⟨⟨hs'.1, hs'.2.mono fun k hk => ?_⟩, hpaired, fun h => absurd rfl h⟩
      obtain (hk | ⟨_, hid, -⟩) | hk := hk
      · exact .inl hk
      · cases hid
      · exact .inr ⟨id, hmark, hk⟩
  | restore id =>
      obtain ⟨hmark, hpaired⟩ := hpaired
      unfold perform
      rw [hh]
      refine Ends.bind ((Highlighter.ends_restore_lit hs hlit).mono
        (fun _ s' hs' => Ends.pure ?_) fun e s' he => ⟨he.2.1 ▸ hs, he.2.2⟩)
      refine ⟨⟨hs'.1, hs'.2.1.mono fun k hk => ?_⟩, hpaired, fun h => absurd rfl h⟩
      obtain ⟨hk | ⟨id', hid, hk⟩, hn⟩ := hk
      · exact .inl hk
      · obtain rfl := Option.some.inj hid
        exact absurd hk hn
  | call name args => exact plain rfl
  | expr e => exact plain rfl
  | sleep e => exact plain rfl

/-- **Running steps leaves highlighted, besides others, only the block that the steps to come
restore**, when the run is not superseded. -/
theorem ends_advance_lit (hd : ∀ d ∈ t.definitions, d.Honest) (hp : t.pacing.Fair)
    {h : Highlighter} (hh : t.highlighter = some h) {ops : List Op} (hpaired : Op.Paired ops)
    {clock : Clock} (hc : clock.Steady t.generation) (hs : s.workspace.Filed)
    {lit : Key → Prop} (hlit : s.workspace.LitWithin (Op.MayLight lit ops)) :
    Ends (advance t clock ops) s
      (fun p s' => match p with
        | .finished => s'.workspace.LitWithin lit
        | .paused _ rest => s'.workspace.LitWithin (Op.MayLight lit rest) ∧
            Op.Paired rest ∧ ∃ ran e, ops = ran ++ .sleep e :: rest)
      fun e _ => e.isFault = true := by
  -- step by step: which block may be highlighted is read off the steps that are left
  induction ops generalizing clock s with
  | nil =>
      refine Ends.pure (hlit.mono fun k hk => hk.resolve_right ?_)
      rintro ⟨_, hid, -⟩
      cases hid
  | cons op ops ih =>
      have step := Op.ends_perform_lit hd hp hpaired hs hlit hh
      refine ends_advance_steady hc (step.mono (fun pause s' hs' => ?_) fun _ _ he => he.2)
      obtain ⟨⟨hs', hlit'⟩, hpaired', hsleep⟩ := hs'
      split
      · intro clock hc
        refine (ih hpaired' hc hs' hlit').mono (fun p u hu => ?_) fun _ _ he => he
        cases p with
        | finished => exact hu
        | paused pause rest =>
            obtain ⟨hmark, hrest, ran, e, rfl⟩ := hu
            exact ⟨hmark, hrest, op :: ran, e, rfl⟩
      · rename_i hpause
        obtain ⟨e, rfl⟩ := hsleep hpause
        exact ⟨hlit', hpaired', [], e, rfl⟩

end

end Blockwork
