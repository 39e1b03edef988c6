import Blockwork.Proofs.Declining
import Blockwork.Proofs.Surveying

/-!
# Renamings

No name of a block is special, but for the empty one.  When the names of blocks are replaced by
others in all that is demanded of a workspace, different ones by different ones and the empty one by
itself, then the same demands fail, and the workspace is the same one in the end, apart from the
names (`Renaming.renames_run`).  Whatever is read of it then is the same, apart from the names
(`Renaming.Carries`): the chains, what hangs from a block, the order of the blocks at the top, and how
much an audit finds.
-/

namespace Blockwork

variable {R : String → String → Prop} {M : Nat → Nat → Prop}

/-! ### Edits of parallel workspaces -/

namespace Edit

variable (hR : OneToOne R)

include hR

theorem alike_removeAll {ids ids' : List Value} (h : List.Forall₂ (Value.Twin R) ids ids') :
    Alike (Workspace.Parallel R M) Error.Kin (fun _ _ => True) (removeAll ids)
      (removeAll ids') := by
  induction h with
  | nil => exact Alike.pure trivial
  | cons hid _ ih =>
      refine (alike_follow hR hid).bind fun i l hil => ?_
      exact (Alike.modify fun w u h => h.erase hR hil).bind fun _ _ _ => ih

theorem alike_moveUp {b c : Block} (h : b.Twin R c) :
    Alike (Workspace.Parallel R M) Error.Kin (fun _ _ => True) (moveUp b) (moveUp c) := by
  unfold moveUp
  refine (alike_follow hR h.next).bind fun i l hil => ?_
  rw [hR.isTruthy_value h.parent, h.parentInput, h.position]
  have put : Alike (Workspace.Parallel R M) Error.Kin (fun _ _ => True)
      (update i fun f => { f with position := c.position })
      (update l fun f => { f with position := c.position }) :=
    alike_update hR hil fun _ _ hf => { hf with position := rfl }
  split
  · refine Alike.bind (Q := fun o o' => ∃ p q, o = some p ∧ o' = some q ∧ Key.Twin R p q)
      ((alike_ofExcept h.parent.toKey).map fun p q hpq => ⟨p, q, rfl, rfl, hpq⟩) ?_
    rintro _ _ ⟨p, q, rfl, rfl, hpq⟩
    refine Alike.get.bind fun w u hw => ?_
    rw [Option.filter_some, Option.filter_some, hw.contains hR hpq]
    cases u.contains q with
    | false => exact put
    | true =>
        generalize decide (c.parentInput = .null) = behind
        cases behind with
        | false => exact put
        | true =>
            refine Alike.bind (alike_update hR hpq fun _ _ hf => { hf with next := h.next }) ?_
            exact fun _ _ _ => alike_update hR hil fun _ _ hf => { hf with parent := h.parent }
  · refine Alike.bind (Q := fun o o' => o = none ∧ o' = none) (Alike.pure ⟨rfl, rfl⟩) ?_
    rintro _ _ ⟨rfl, rfl⟩
    exact Alike.get.bind fun _ _ _ => put

variable {k j : Key} (hk : Key.Twin R k j)

include hk

theorem alike_setField (name value : Value) :
    Alike (Workspace.Parallel R M) Error.Kin (fun _ _ => True) (setField k name value)
      (setField j name value) := by
  unfold setField
  refine (alike_require hR hk).bind fun b c hbc => (alike_declarationOf hbc).bind ?_
  rintro d _ rfl
  rw [hbc.fields, hbc.type]
  split
  · refine (alike_same _).bind ?_
    rintro new _ rfl
    split
    · exact Alike.pure trivial
    · refine Alike.bind (alike_update hR hk fun p q hpq => ?_) fun _ _ _ => Alike.pure trivial
      exact { hpq with fields := by rw [hpq.fields] }
  · exact alike_refuse

theorem alike_setEnabled (enabled : Value) :
    Alike (Workspace.Parallel R M) Error.Kin (fun _ _ => True) (setEnabled k enabled)
      (setEnabled j enabled) := by
  unfold setEnabled
  refine (alike_require hR hk).bind fun b c hbc => ?_
  rw [hbc.enabled]
  split
  · exact Alike.pure trivial
  · exact Alike.bind (alike_update hR hk fun _ _ h => { h with enabled := rfl }) fun _ _ _ =>
      Alike.pure trivial

theorem alike_move (x y : Value) :
    Alike (Workspace.Parallel R M) Error.Kin (fun _ _ => True) (move k x y) (move j x y) := by
  unfold move
  refine (alike_require hR hk).bind fun b c hbc => (alike_same _).bind ?_
  rintro position _ rfl
  exact Alike.bind (alike_update hR hk fun _ _ h => { h with position := rfl }) fun _ _ _ =>
    Alike.pure trivial

theorem alike_disconnect :
    Alike (Workspace.Parallel R M) Error.Kin (fun _ _ => True) (disconnect k) (disconnect j) := by
  unfold disconnect
  refine (alike_require hR hk).bind fun b c hbc => ?_
  by_cases hnull : b.parent = .null
  · rw [if_pos hnull, if_pos (hbc.parent.eq_null_iff.mp hnull)]
    exact Alike.pure trivial
  · rw [if_neg hnull, if_neg (mt hbc.parent.eq_null_iff.mpr hnull)]
    exact (alike_unplug hR hk).bind fun _ _ _ => Alike.pure trivial

theorem alike_delete (heal : Bool) :
    Alike (Workspace.Parallel R M) Error.Kin (fun _ _ => True) (delete k heal)
      (delete j heal) := by
  unfold delete
  refine (alike_require hR hk).bind fun b c hbc => ?_
  -- links go together, so both chains are healed or neither is
  have hheals : (heal && b.next != .null) = (heal && c.next != .null) := by
    rw [bne, bne, Bool.beq_eq_decide_eq, Bool.beq_eq_decide_eq]
    simp only [hbc.next.eq_null_iff]
  have rest (heals : Bool) : Alike (Workspace.Parallel R M) Error.Kin (fun _ _ => True) (do
        unplug k
        let removed := (← ofExcept ((← get).descendants k)).map (·.id)
        removeAll removed
        if heals then moveUp b
        return [notice .delete k [("ids", .list removed)]])
      (do
        unplug j
        let removed := (← ofExcept ((← get).descendants j)).map (·.id)
        removeAll removed
        if heals then moveUp c
        return [notice .delete j [("ids", .list removed)]]) := by
    refine (alike_unplug hR hk).bind fun _ _ _ => Alike.get.bind fun w u hw => ?_
    refine (alike_ofExcept (hw.twin_descendants hR hk)).bind fun bs cs hall => ?_
    have hids : List.Forall₂ (Value.Twin R) (bs.map (·.id)) (cs.map (·.id)) := by
      rw [List.forall₂_map_left_iff, List.forall₂_map_right_iff]
      exact hall.imp fun _ _ h => h.id
    refine (alike_removeAll hR hids).bind fun _ _ _ => ?_
    cases heals with
    | true => exact (alike_moveUp hR hbc).bind fun _ _ _ => Alike.pure trivial
    | false => exact Alike.pure trivial
  rw [hheals]
  cases heal && c.next != .null with
  | true =>
      refine (alike_follow hR hbc.next).bind fun i l hil => (alike_unplug hR hil).bind ?_
      exact fun _ _ _ => rest true
  | false => exact rest false

theorem alike_beginDrag :
    Alike (Workspace.Parallel R M) Error.Kin (fun _ _ => True) (beginDrag k) (beginDrag j) := by
  unfold beginDrag
  refine (alike_require hR hk).bind fun _ _ _ => ?_
  exact (Alike.modify fun w u h => ⟨h.vocabulary, h.muted, h.entries, h.created⟩).bind
    fun _ _ _ => Alike.pure trivial

theorem alike_endDrag :
    Alike (Workspace.Parallel R M) Error.Kin (fun _ _ => True) (endDrag k) (endDrag j) := by
  unfold endDrag
  refine (alike_require hR hk).bind fun _ _ _ => ?_
  exact (Alike.modify fun w u h => ⟨h.vocabulary, h.muted, h.entries, h.created⟩).bind
    fun _ _ _ => Alike.pure trivial

end Edit

/-! ### Demands -/

/-- The ids in a request. -/
def Request.ids : Request → List Value
  | .create _ id _ _ | .setField id _ _ | .setEnabled id _ | .move id _ _ | .disconnect id
  | .delete id _ | .beginDrag id | .endDrag id => [id]
  | .connectValue above _ below | .connectNext above below => [above, below]

/-- A request with its ids replaced. -/
def Request.mapIds (f : Value → Value) : Request → Request
  | .create type id position fields => .create type (f id) position fields
  | .setField id name value => .setField (f id) name value
  | .setEnabled id enabled => .setEnabled (f id) enabled
  | .move id x y => .move (f id) x y
  | .disconnect id => .disconnect (f id)
  | .connectValue above socket below => .connectValue (f above) socket (f below)
  | .connectNext above below => .connectNext (f above) (f below)
  | .delete id heal => .delete (f id) heal
  | .beginDrag id => .beginDrag (f id)
  | .endDrag id => .endDrag (f id)

/-- What is demanded of a workspace: that it meets a request, or that it is emptied. -/
inductive Demand where
  | request (q : Request)
  | clear

namespace Demand

/-- The ids in a demand. -/
def ids : Demand → List Value
  | .request q => q.ids
  | .clear => []

/-- A demand with its ids replaced. -/
def mapIds (f : Value → Value) : Demand → Demand
  | .request q => .request (q.mapIds f)
  | .clear => .clear

variable {σ : Type}

/-- What is done on a demand. -/
def act (a : Audience σ) : Demand → Act σ Unit
  | .request q => q.act a
  | .clear => Act.clear a

/-- Meets demands one after the other, also after some that could not be met; the answer says of each
whether it was met. -/
def meetAll (a : Audience σ) : List Demand → Act σ (List Bool)
  | [] => return []
  | d :: ds => do
    let met ← Act.attempt (d.act a)
    return met.isOk :: (← meetAll a ds)

theorem exists_meetAll (a : Audience σ) (ds : List Demand) (s : Scene σ) :
    ∃ met t, meetAll a ds s = .ok met t := by
  suffices Ends (meetAll a ds) s (fun _ _ => True) fun _ _ => False by
    obtain ⟨met, t, ht, -⟩ := this.exists_ok
    exact ⟨met, t, ht⟩
  induction ds generalizing s with
  | nil => exact Ends.pure trivial
  | cons d ds ih =>
      refine Ends.bind (Act.ends_attempt ?_)
      have rest (r : Except Error Unit) (t : Scene σ) : Ends (do
          return r.isOk :: (← meetAll a ds)) t (fun _ _ => True) fun _ _ => False :=
        Ends.bind ((ih t).mono (fun _ _ _ => Ends.pure trivial) fun _ _ h => h)
      exact (Ends.self (d.act a) s).mono (fun _ t _ => rest _ t) fun _ t _ => rest _ t

end Demand

/-- Whether an audience neither fails nor changes the workspace. -/
def Audience.Placid {σ : Type} (a : Audience σ) : Prop :=
  ∀ c s, ∃ t, a.hear c s = .ok () t ∧ t.workspace = s.workspace

/-! ### Demands on parallel workspaces -/

/-- Whether two scenes have parallel workspaces. -/
def Scene.Parallel {σ τ : Type} (R : String → String → Prop) (M : Nat → Nat → Prop) (s : Scene σ)
    (t : Scene τ) : Prop := s.workspace.Parallel R M t.workspace

section

variable {σ τ α β : Type} {Q : α → β → Prop} {a : Audience σ} {b : Audience τ}

namespace Act

theorem parallel_edit {x : Edit α} {y : Edit β}
    (h : Alike (Workspace.Parallel R M) Error.Kin Q x y) :
    Alike (Scene.Parallel R M) Error.Kin Q (edit (σ := σ) x) (edit (σ := τ) y) := by
  intro s t hst
  have hxy := h _ _ hst
  unfold edit
  cases hx : x s.workspace <;> cases hy : y t.workspace <;> rw [hx, hy] at hxy
  · exact hxy
  · exact hxy.elim
  · exact hxy.elim
  · exact hxy

theorem parallel_ofExcept {r : Except Error α} {r' : Except Error β}
    (h : Except.Twin Error.Kin Q r r') :
    Alike (Scene.Parallel R M) Error.Kin Q (ofExcept (σ := σ) r) (ofExcept (σ := τ) r') := by
  cases h with
  | ok h => exact Alike.pure h
  | error h => exact Alike.throw h

/-- What is told to a placid audience changes no workspace. -/
theorem exists_tellAll (ha : a.Placid) (ns : List Notice) (s : Scene σ) :
    ∃ t, tellAll a ns s = .ok () t ∧ t.workspace = s.workspace := by
  suffices Ends (tellAll a ns) s (fun _ t => t.workspace = s.workspace) fun _ _ => False by
    obtain ⟨_, t, ht, hw⟩ := this.exists_ok
    exact ⟨t, ht, hw⟩
  have heard (w : Workspace) (c : Change) (s : Scene σ) (hs : s.workspace = w) :
      Ends (a.hear c) s (fun _ t => t.workspace = w) fun _ _ => False := by
    obtain ⟨t, ht, hw⟩ := ha c s
    rw [Ends.of_ok ht]
    exact hw.trans hs
  -- what is told of a notice depends on the workspace, which stays the same throughout
  generalize hw : s.workspace = w
  induction ns generalizing s with
  | nil => exact Ends.pure hw
  | cons n ns ih =>
      refine Ends.bind (Ends.bind (Ends.get ?_))
      dsimp only
      split
      · refine Ends.bind ((heard w _ s hw).mono (fun _ t ht => ?_) fun _ _ h => h)
        exact Ends.pure (ih t ht)
      · exact Ends.pure (ih s hw)

variable (ha : a.Placid) (hb : b.Placid)

include ha hb

theorem parallel_perform {x y : Edit (List Notice)}
    (h : Alike (Workspace.Parallel R M) Error.Kin (fun _ _ => True) x y) :
    Alike (Scene.Parallel R M) Error.Kin (fun _ _ => True) (perform a x) (perform b y) := by
  refine (parallel_edit h).bind fun ns ms _ s t hst => ?_
  obtain ⟨s', hs', hw⟩ := exists_tellAll ha ns s
  obtain ⟨t', ht', hu⟩ := exists_tellAll hb ms t
  rw [hs', ht']
  refine ⟨trivial, ?_⟩
  rw [Scene.Parallel, hw, hu]
  exact hst

variable (hR : OneToOne R)

include hR

theorem parallel_deleteAll {ids ids' : List Value} (h : List.Forall₂ (Value.Twin R) ids ids') :
    Alike (Scene.Parallel R M) Error.Kin (fun _ _ => True) (deleteAll a ids)
      (deleteAll b ids') := by
  induction h with
  | nil => exact Alike.pure trivial
  | cons hid _ ih =>
      refine (parallel_ofExcept hid.toKey).bind fun k j hk => Alike.get.bind fun s t hst => ?_
      rw [Workspace.Parallel.contains hR hst hk]
      dsimp only
      split
      · exact (parallel_perform ha hb (Edit.alike_delete hR hk false)).bind fun _ _ _ => ih
      · exact ih

/-- Parallel workspaces are emptied alike. -/
theorem parallel_clear :
    Alike (Scene.Parallel R M) Error.Kin (fun _ _ => True) (clear a) (clear b) := by
  refine Alike.get.bind fun s t hst => ?_
  have htops : Except.Twin Error.Kin (List.Forall₂ (Block.Twin R)) s.workspace.tops
      t.workspace.tops := (Workspace.Parallel.twin_tops hR hst).mono
    (fun _ e he => he ▸ Error.Kin.refl e) fun _ _ h => h
  refine (parallel_ofExcept htops).bind fun bs cs hall => parallel_deleteAll ha hb hR ?_
  rw [List.forall₂_map_left_iff, List.forall₂_map_right_iff]
  exact hall.imp fun _ _ h => h.id

end Act

/-- Whether the ids in a demand are names that go together with those that they are replaced by. -/
def Demand.Goes (R : String → String → Prop) (f : Value → Value) (d : Demand) : Prop :=
  ∀ id ∈ d.ids, id ≠ .null ∧ Value.Twin R id (f id)

section

variable (hR : OneToOne R) (hnext : ∀ m n, M m n → M (m + 1) (n + 1)) {f : Value → Value}

include hR hnext

/-- Parallel workspaces undergo the same edit on request. -/
theorem Request.alike_edit {q : Request} (hq : Demand.Goes R f (.request q)) :
    Alike (Workspace.Parallel R M) Error.Kin (fun _ _ => True) q.edit (q.mapIds f).edit := by
  have named {id : Value} (hid : id ∈ q.ids) {x y : Key → Edit (List Notice)}
      (hxy : ∀ k j, Key.Twin R k j →
        Alike (Workspace.Parallel R M) Error.Kin (fun _ _ => True) (x k) (y j)) :
      Alike (Workspace.Parallel R M) Error.Kin (fun _ _ => True) (do x (← Edit.named id))
        (do y (← Edit.named (f id))) :=
    (Edit.alike_ofExcept (hq id hid).2.toKey).bind hxy
  cases q with
  | create type id position fields =>
      obtain ⟨hne, hid⟩ := hq id List.mem_cons_self
      exact (Edit.alike_create hR hid hnext (fun h => absurd h hne) type position fields).map
        fun _ _ _ => trivial
  | setField id name value =>
      exact named List.mem_cons_self fun _ _ h => Edit.alike_setField hR h name value
  | setEnabled id enabled =>
      exact named List.mem_cons_self fun _ _ h => Edit.alike_setEnabled hR h enabled
  | move id x y => exact named List.mem_cons_self fun _ _ h => Edit.alike_move hR h x y
  | disconnect id => exact named List.mem_cons_self fun _ _ h => Edit.alike_disconnect hR h
  | delete id heal => exact named List.mem_cons_self fun _ _ h => Edit.alike_delete hR h _
  | beginDrag id => exact named List.mem_cons_self fun _ _ h => Edit.alike_beginDrag hR h
  | endDrag id => exact named List.mem_cons_self fun _ _ h => Edit.alike_endDrag hR h
  | connectValue above socket below =>
      refine (Edit.alike_ofExcept (hq above List.mem_cons_self).2.toKey).bind fun k j hk => ?_
      refine (Edit.alike_require hR hk).bind fun _ _ _ => ?_
      exact named (List.mem_cons_of_mem _ List.mem_cons_self) fun _ _ h =>
        Edit.alike_connectValue hR hk h socket
  | connectNext above below =>
      refine (Edit.alike_ofExcept (hq above List.mem_cons_self).2.toKey).bind fun k j hk => ?_
      refine (Edit.alike_require hR hk).bind fun _ _ _ => ?_
      exact named (List.mem_cons_of_mem _ List.mem_cons_self) fun _ _ h =>
        Edit.alike_connectNext hR hk h

variable (ha : a.Placid) (hb : b.Placid)

include ha hb

/-- Parallel workspaces meet the same demands, and stay parallel. -/
theorem Demand.alike_act {d : Demand} (hd : d.Goes R f) :
    Alike (Scene.Parallel R M) Error.Kin (fun _ _ => True) (d.act a) ((d.mapIds f).act b) := by
  cases d with
  | request q => exact Act.parallel_perform ha hb (q.alike_edit hR hnext hd)
  | clear => exact Act.parallel_clear ha hb hR

theorem Demand.alike_meetAll {ds : List Demand} (hds : ∀ d ∈ ds, d.Goes R f) :
    Alike (Scene.Parallel R M) Error.Kin Eq (meetAll a ds) (meetAll b (ds.map (mapIds f))) := by
  induction ds with
  | nil => exact Alike.pure rfl
  | cons d ds ih =>
      have hmet : Alike (Scene.Parallel R M) Error.Kin (fun r r' => r.isOk = r'.isOk)
          (Act.attempt (d.act a)) (Act.attempt ((d.mapIds f).act b)) := by
        intro s t hst
        have hd := alike_act hR hnext ha hb (hds d List.mem_cons_self) s t hst
        -- a demand that cannot be met may have changed the workspaces, and then both alike
        unfold Act.attempt
        cases hx : d.act a s <;> cases hy : (d.mapIds f).act b t <;> rw [hx, hy] at hd
        · exact ⟨rfl, hd.2⟩
        · exact hd.elim
        · exact hd.elim
        · exact ⟨rfl, hd.2⟩
      refine hmet.bind fun r r' hr => ?_
      refine (ih fun d' hd' => hds d' (List.mem_cons_of_mem d hd')).bind ?_
      rintro rest _ rfl
      exact Alike.pure (by rw [hr])

end

end

/-! ### Renamings -/

/-- New names for names: different ones for different ones, and the empty one for itself. -/
structure Renaming where
  name : String → String
  injective : Function.Injective name
  empty : name "" = ""

namespace Renaming

variable (r : Renaming)

/-- A link renamed. -/
def value : Value → Value
  | .text x => .text (r.name x)
  | v => v

/-- A key renamed. -/
def key : Key → Key
  | .text x => .text (r.name x)
  | k => k

/-- A block with its id and its links renamed. -/
def block (b : Block) : Block :=
  { b with
    id := r.value b.id
    inputs := b.inputs.map fun e => (e.1, r.value e.2)
    next := r.value b.next
    parent := r.value b.parent }

/-- Whether the second name is the new one of the first one, which is not empty. -/
def Names (x y : String) : Prop := x ≠ "" ∧ y = r.name x

theorem oneToOne : OneToOne r.Names where
  left h h' := r.injective (h.2.symm.trans h'.2)
  right h h' := h.2.trans h'.2.symm
  nonempty h := ⟨h.1, fun he => h.1 (r.injective (h.2.symm.trans (he.trans r.empty.symm)))⟩

section

variable {r}

theorem value_of_twin {v v' : Value} (h : Value.Twin r.Names v v') : v' = r.value v := by
  cases h with
  | null => rfl
  | text h => rw [h.2, value]

theorem key_of_twin {k j : Key} (h : Key.Twin r.Names k j) : j = r.key k := by
  cases h with
  | null => rfl
  | text h => rw [h.2, key]

theorem eq_map_of_forall₂ {α β : Type} {Q : α → β → Prop} {f : α → β} {as : List α} {bs : List β}
    (h : List.Forall₂ Q as bs) (hf : ∀ a b, Q a b → b = f a) : bs = as.map f := by
  rw [← List.map_id bs]
  exact map_eq_of_forall₂ h hf

theorem block_of_twin {b c : Block} (h : b.Twin r.Names c) : c = r.block b := by
  have hinputs : c.inputs = b.inputs.map fun e => (e.1, r.value e.2) :=
    eq_map_of_forall₂ h.inputs fun e f hef => Prod.ext hef.1.symm (value_of_twin hef.2)
  cases c
  simp only [block, Block.mk.injEq]
  exact ⟨value_of_twin h.id, h.type.symm, h.fields.symm, hinputs, value_of_twin h.next,
    value_of_twin h.parent, h.parentInput.symm, h.position.symm, h.enabled.symm, h.colour.symm,
    h.savedColour.symm⟩

end

theorem eq_map_of_twin {α β : Type} {Q : α → β → Prop} {f : α → β} {x : Except Error α}
    {y : Except Error β} (h : Except.Twin Eq Q x y) (hf : ∀ a b, Q a b → b = f a) :
    y = x.map f := by
  cases h with
  | ok h => rw [hf _ _ h, Except.map]
  | error h => rw [h, Except.map]

/-- Whether a workspace is another one renamed, and so is what is read of it. -/
structure Carries (w u : Workspace) : Prop where
  entries : u.entries = w.entries.map fun e => (r.key e.1, r.block e.2)
  chain : ∀ x, x ≠ "" → u.chain (.text (r.name x)) =
    (w.chain (.text x)).map (List.map fun e => (r.key e.1, r.block e.2))
  descendants : ∀ x, x ≠ "" → u.descendants (.text (r.name x)) =
    (w.descendants (.text x)).map (List.map r.block)
  tops : u.tops = w.tops.map (List.map r.block)
  audit : w.audit = .ok [] ↔ u.audit = .ok []

theorem carries_of_parallel {w u : Workspace} (h : w.Parallel r.Names M u) : r.Carries w u where
  entries := eq_map_of_forall₂ h.entries fun e f hef =>
    Prod.ext (key_of_twin hef.1) (block_of_twin hef.2)
  chain x hx := eq_map_of_twin (h.twin_chain r.oneToOne (.text ⟨hx, rfl⟩)) fun _ _ hall =>
    eq_map_of_forall₂ hall fun e f hef => Prod.ext (key_of_twin hef.1) (block_of_twin hef.2)
  descendants x hx := eq_map_of_twin (h.twin_descendants r.oneToOne (.text ⟨hx, rfl⟩))
    fun _ _ hall => eq_map_of_forall₂ hall fun _ _ => block_of_twin
  tops := eq_map_of_twin (h.twin_tops r.oneToOne) fun _ _ hall =>
    eq_map_of_forall₂ hall fun _ _ => block_of_twin
  audit := by
    have haudit := h.twin_audit r.oneToOne
    generalize w.audit = x at haudit
    generalize u.audit = y at haudit
    cases haudit with
    | error _ => exact ⟨(nomatch ·), (nomatch ·)⟩
    | ok hlen =>
        rw [Except.ok.injEq, Except.ok.injEq, ← List.length_eq_zero_iff, hlen,
          List.length_eq_zero_iff]

/-- **No name is special but the empty one.**  Let the names in what is demanded of a new workspace
be replaced.  Then the same demands are met, however many blocks have been created before, and the
workspace is renamed in the end, with all that is read of it. -/
theorem renames_run {σ τ : Type} {a : Audience σ} {b : Audience τ} (ha : a.Placid) (hb : b.Placid)
    (v : Vocabulary) (m n : Nat) {ds : List Demand}
    (hds : ∀ d ∈ ds, ∀ id ∈ d.ids, ∃ x, x ≠ "" ∧ id = .text x) {s : Scene σ} {t : Scene τ}
    (hs : s.workspace = .new v m) (ht : t.workspace = .new v n) :
    ∃ met s' t', Demand.meetAll a ds s = .ok met s' ∧
      Demand.meetAll b (ds.map (Demand.mapIds r.value)) t = .ok met t' ∧
        r.Carries s'.workspace t'.workspace := by
  have hgoes (d : Demand) (hd : d ∈ ds) : d.Goes r.Names r.value := fun id hid => by
    obtain ⟨x, hx, rfl⟩ := hds d hd id hid
    exact ⟨Value.noConfusion, .text ⟨hx, rfl⟩⟩
  have hnew : Scene.Parallel r.Names (fun _ _ => True) s t := by
    rw [Scene.Parallel, hs, ht]
    exact ⟨rfl, rfl, .nil, trivial⟩
  have hmeet := Demand.alike_meetAll (M := fun _ _ => True) r.oneToOne (fun _ _ _ => trivial) ha hb hgoes
  obtain ⟨met, s', hs'⟩ := Demand.exists_meetAll a ds s
  obtain ⟨_, t', ht', rfl, hst⟩ := hmeet.exists_ok hnew hs'
  exact ⟨met, s', t', hs', ht', r.carries_of_parallel hst⟩

end Renaming

end Blockwork
