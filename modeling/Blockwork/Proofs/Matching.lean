import Blockwork.Proofs.Emptying
import Blockwork.Proofs.Lasting
import Blockwork.Proofs.Twins

/-!
# Edits and loads of twins

An edit compares names and keeps them, and does nothing else with them.  So the same edit of
workspaces that are parallel ends alike and leaves them so (`Edit.alike_create`, `Edit.alike_connectValue`,
`Edit.alike_connectNext`), and so does rebuilding twins from one document in which the names that
are given go together with themselves (`Snapshot.alike_rebuild`).
-/

namespace Blockwork

variable {R : String → String → Prop} {M : Nat → Nat → Prop}

/-- What is plugged into the same socket of twins goes together. -/
theorem Block.Twin.occupant {b c : Block} (h : b.Twin R c) (name : Key) :
    Value.Twin R ((Entries.get? b.inputs name).getD .null)
      ((Entries.get? c.inputs name).getD .null) := by
  have hrel := Entries.rel_get? (k := name) (j := name) h.inputs fun i l hil => by rw [hil]
  generalize Entries.get? b.inputs name = v at hrel
  generalize Entries.get? c.inputs name = v' at hrel
  cases hrel with
  | none => exact .null
  | some hv => exact hv

/-! ### Edits of twins -/

namespace Edit

variable {α β : Type} {Q : α → β → Prop} {k j : Key} {w u : Workspace} {b c : Block}

theorem alike_ofExcept {r : Except Error α} {r' : Except Error β} (h : Except.Twin Error.Kin Q r r') :
    Alike (Workspace.Parallel R M) Error.Kin Q (ofExcept r) (ofExcept r') := by
  cases h with
  | ok h => exact Alike.pure h
  | error h => exact Alike.throw h

theorem alike_same (r : Except Error α) :
    Alike (Workspace.Parallel R M) Error.Kin Eq (ofExcept r) (ofExcept r) :=
  alike_ofExcept (.refl Error.Kin.refl r)

theorem alike_refuse {v v' : Violation} :
    Alike (Workspace.Parallel R M) Error.Kin Q (refuse v : Edit α) (refuse v' : Edit β) :=
  Alike.throw rfl

/-- A check that refuses both of two edits or neither. -/
theorem alike_guard {q q' : Prop} [Decidable q] [Decidable q'] (hq : q ↔ q') {v v' : Violation}
    {rest : Unit → Edit α} {rest' : Unit → Edit β}
    (h : Alike (Workspace.Parallel R M) Error.Kin Q (rest ()) (rest' ())) :
    Alike (Workspace.Parallel R M) Error.Kin Q
      (if q then (refuse v : Edit Unit) >>= rest else rest ())
      (if q' then (refuse v' : Edit Unit) >>= rest' else rest' ()) := by
  by_cases hp : q
  · rw [if_pos hp, if_pos (hq.mp hp)]
    exact Alike.bind (Q := fun _ _ => True) alike_refuse fun _ _ _ => h
  · rw [if_neg hp, if_neg (mt hq.mpr hp)]
    exact h

section

variable (hR : OneToOne R) (hk : Key.Twin R k j)

include hR hk

theorem alike_require :
    Alike (Workspace.Parallel R M) Error.Kin (Block.Twin R) (require k) (require j) := by
  refine Alike.get.bind fun w u h => ?_
  have hrel := h.find? hR hk
  generalize w.find? k = b at hrel
  generalize u.find? j = c at hrel
  cases hrel with
  | none => exact alike_refuse
  | some hbc => exact Alike.pure hbc

theorem alike_deref :
    Alike (Workspace.Parallel R M) Error.Kin (Block.Twin R) (deref k) (deref j) := by
  refine Alike.get.bind fun w u h => ?_
  have hrel := h.find? hR hk
  generalize w.find? k = b at hrel
  generalize u.find? j = c at hrel
  cases hrel with
  | none => exact Alike.throw rfl
  | some hbc => exact Alike.pure hbc

theorem alike_update {f g : Block → Block} (hf : ∀ b c, b.Twin R c → (f b).Twin R (g c)) :
    Alike (Workspace.Parallel R M) Error.Kin (fun _ _ => True) (update k f) (update j g) :=
  Alike.modify fun _ _ h => h.modify hR hk hf

end

theorem alike_follow (hR : OneToOne R) {v v' : Value} (hv : Value.Twin R v v') :
    Alike (Workspace.Parallel R M) Error.Kin (Key.Twin R) (follow v) (follow v') := by
  obtain ⟨k, j, hk, hj, hkj⟩ := hv.exists_toKey
  unfold follow
  rw [hk, hj]
  refine Alike.bind (alike_ofExcept (.ok hkj)) fun i l hil => ?_
  exact (alike_deref hR hil).bind fun _ _ _ => Alike.pure hil

theorem alike_declarationOf (hb : b.Twin R c) :
    Alike (Workspace.Parallel R M) Error.Kin Eq (declarationOf b) (declarationOf c) := by
  refine Alike.get.bind fun w u h => ?_
  rw [h.declarationOf_eq hb]
  exact alike_same _

/-! ### New blocks -/

section

variable (hR : OneToOne R) {id id' : Value} (hid : Value.Twin R id id')

include hR hid

/-- Names that go together are in use in both of two workspaces or in neither. -/
theorem alike_claimId :
    Alike (Workspace.Parallel R M) Error.Kin (fun asked asked' =>
        Option.Rel (Key.Twin R) asked asked' ∧ (asked = none → id = .null))
      (claimId id) (claimId id') := by
  unfold claimId
  by_cases hnull : id = .null
  · rw [if_pos hnull, if_pos (hid.eq_null_iff.mp hnull)]
    exact Alike.pure ⟨.none, fun _ => hnull⟩
  · rw [if_neg hnull, if_neg (mt hid.eq_null_iff.mpr hnull)]
    obtain ⟨k, k', hk, hk', hkk⟩ := hid.exists_toKey
    rw [hk, hk']
    refine Alike.bind (alike_ofExcept (.ok hkk)) fun j j' hj => Alike.get.bind fun w u h => ?_
    rw [h.contains hR hj]
    split
    · exact alike_refuse
    · exact Alike.pure ⟨.some hj, fun e => nomatch e⟩

/-- A block is created in both of two workspaces or in neither, and under names that go together,
also where it is asked for none. -/
theorem alike_create (hnext : ∀ m n, M m n → M (m + 1) (n + 1))
    (hmint : id = .null → ∀ m n, M m n → R (Workspace.mint (m + 1)) (Workspace.mint (n + 1)))
    (type position : Value) (fields : List (Key × Value)) :
    Alike (Workspace.Parallel R M) Error.Kin (fun made made' => Key.Twin R made.1 made'.1)
      (create type id position fields) (create type id' position fields) := by
  unfold create
  refine Alike.get.bind fun w u h => (alike_same _).bind ?_
  rintro key _ rfl
  rw [h.vocabulary]
  refine (alike_same _).bind ?_
  rintro d _ rfl
  refine (alike_claimId hR hid).bind fun asked asked' hasked => ?_
  rw [fillFields_eq]
  refine (alike_same _).bind ?_
  rintro written _ rfl
  refine (alike_same _).bind ?_
  rintro coords _ rfl
  refine Alike.get.bind fun w u h => ?_
  have hkey : Key.Twin R (asked.getD (.text (Workspace.mint (w.created + 1))))
      (asked'.getD (.text (Workspace.mint (u.created + 1)))) := by
    obtain ⟨hasked, hnone⟩ := hasked
    cases hasked with
    | none => exact .text (hmint (hnone rfl) _ _ h.created)
    | some hk => exact hk
  refine Alike.bind (Q := fun _ _ => True) (fun w' u' h' => ⟨trivial, ?_⟩) fun _ _ _ =>
    Alike.pure hkey
  have hblock : Block.Twin R
      { id := .ofKey (asked.getD (.text (Workspace.mint (w.created + 1)))), type,
        fields := written, position := coords, colour := .text d.colour.hex }
      { id := .ofKey (asked'.getD (.text (Workspace.mint (u.created + 1)))), type,
        fields := written, position := coords, colour := .text d.colour.hex } :=
    ⟨hkey.ofKey, .nil, .null, .null, rfl, rfl, rfl, rfl, rfl, rfl, rfl⟩
  exact h'.put hR hkey hblock (hnext _ _ h.created)

end

/-! ### Links -/

theorem alike_dropInput {es fs : List (Key × Value)}
    (h : List.Forall₂ (fun e f => e.1 = f.1 ∧ Value.Twin R e.2 f.2) es fs) (socket : Value) :
    Except.Twin Error.Kin (List.Forall₂ fun e f => e.1 = f.1 ∧ Value.Twin R e.2 f.2)
      (dropInput es socket) (dropInput fs socket) := by
  unfold dropInput
  cases h with
  | nil => exact .ok .nil
  | cons he hrest =>
      cases hs : socket.toKey with
      | error e => exact .error rfl
      | ok k => exact .ok (Entries.forall₂_erase (.cons he hrest) fun i l hil => by rw [hil])

section

variable (hR : OneToOne R)

include hR

theorem alike_unplug (hk : Key.Twin R k j) :
    Alike (Workspace.Parallel R M) Error.Kin (fun _ _ => True) (unplug k) (unplug j) := by
  unfold unplug
  refine (alike_deref hR hk).bind fun b c h => ?_
  have loosened : Alike (Workspace.Parallel R M) Error.Kin (fun _ _ => True)
      (update k fun b => { b with parent := .null, parentInput := .null })
      (update j fun b => { b with parent := .null, parentInput := .null }) :=
    alike_update hR hk fun _ _ h => { h with parent := .null, parentInput := rfl }
  by_cases hp : b.parent = .null
  · rw [if_pos hp, if_pos (h.parent.eq_null_iff.mp hp)]
    exact Alike.pure trivial
  · rw [if_neg hp, if_neg (mt h.parent.eq_null_iff.mpr hp)]
    refine (alike_follow hR h.parent).bind fun i l hil => ?_
    dsimp only
    rw [h.parentInput]
    split
    · exact Alike.bind (alike_update hR hil fun _ _ h => { h with next := .null }) fun _ _ _ =>
        loosened
    · refine (alike_deref hR hil).bind fun p q hpq => ?_
      refine (alike_ofExcept (alike_dropInput hpq.inputs c.parentInput)).bind fun es fs hes => ?_
      exact Alike.bind (alike_update hR hil fun _ _ h => { h with inputs := hes }) fun _ _ _ =>
        loosened

/-- What is put behind the last blocks of two chains, if these can be followed. -/
theorem alike_append (hk : Key.Twin R k j) {v v' : Value} (hv : Value.Twin R v v')
    (ns ms : List Notice) : Alike (Workspace.Parallel R M) Error.Kin (fun _ _ => True) (do
      if let some (last, tail) := (← ofExcept ((← get).chain k)).getLast? then
        if (← declarationOf tail).next then
          let moved ← follow v
          update last fun t => { t with next := v }
          update moved fun m => { m with parent := tail.id, parentInput := .null }
      return ns)
    (do
      if let some (last, tail) := (← ofExcept ((← get).chain j)).getLast? then
        if (← declarationOf tail).next then
          let moved ← follow v'
          update last fun t => { t with next := v' }
          update moved fun m => { m with parent := tail.id, parentInput := .null }
      return ms) := by
  refine Alike.get.bind fun w u h => ?_
  obtain ⟨es, fs, hes, hfs, hall⟩ := h.exists_chain hR hk
  rw [hes, hfs]
  refine Alike.bind (alike_ofExcept (.ok hall)) fun es fs hall => ?_
  have hlast := rel_getLast? hall
  generalize es.getLast? = x at hlast
  generalize fs.getLast? = y at hlast
  cases hlast with
  | none => exact Alike.pure trivial
  | @some x y hxy =>
      obtain ⟨kx, bx⟩ := x
      obtain ⟨ky, cy⟩ := y
      refine (alike_declarationOf hxy.2).bind ?_
      rintro d _ rfl
      split
      · refine (alike_follow hR hv).bind fun o o' ho => ?_
        refine Alike.bind (alike_update hR hxy.1 fun _ _ h => { h with next := hv }) ?_
        intro _ _ _
        exact Alike.bind (alike_update hR ho fun _ _ h =>
          { h with parent := hxy.2.id, parentInput := rfl }) fun _ _ _ => Alike.pure trivial
      · exact Alike.pure trivial

variable {k' j' : Key} (hk : Key.Twin R k j) (hk' : Key.Twin R k' j')

include hk hk'

theorem alike_connectValue (socket : Value) :
    Alike (Workspace.Parallel R M) Error.Kin (fun _ _ => True) (connectValue k socket k')
      (connectValue j socket j') := by
  unfold connectValue
  refine (alike_require hR hk).bind fun b c hbc => (alike_require hR hk').bind fun b' c' hbc' => ?_
  refine (alike_declarationOf hbc).bind ?_
  rintro d _ rfl
  cases hi : d.input? socket with
  | none => exact alike_refuse
  | some s =>
      cases hs : socket.key? with
      | none => exact alike_refuse
      | some name =>
          -- all that is done once the socket is free; it is free at once, or after an unplugging
          have bound (ns ms : List Notice) :
              Alike (Workspace.Parallel R M) Error.Kin (fun _ _ => True) (do
                unplug k'
                update k fun p => { p with inputs := Entries.put p.inputs name (.ofKey k') }
                update k' fun c => { c with parent := .ofKey k, parentInput := socket }
                return ns)
              (do
                unplug j'
                update j fun p => { p with inputs := Entries.put p.inputs name (.ofKey j') }
                update j' fun c => { c with parent := .ofKey j, parentInput := socket }
                return ms) := by
            refine (alike_unplug hR hk').bind fun _ _ _ => ?_
            refine Alike.bind (alike_update hR hk fun p q hpq => { hpq with inputs := ?_ }) ?_
            · exact Entries.forall₂_put hpq.inputs (fun i l hil => by rw [hil]) rfl hk'.ofKey
            · intro _ _ _
              exact Alike.bind (alike_update hR hk' fun p q hpq =>
                { hpq with parent := hk.ofKey, parentInput := rfl }) fun _ _ _ => Alike.pure trivial
          refine (alike_declarationOf hbc').bind ?_
          rintro e _ rfl
          refine alike_guard Iff.rfl ((alike_same _).bind ?_)
          rintro fits _ rfl
          refine alike_guard Iff.rfl (Alike.get.bind fun w u h => ?_)
          rw [h.hangsFrom_eq hR hk' hk]
          refine (alike_same _).bind ?_
          rintro hangs _ rfl
          refine alike_guard Iff.rfl ?_
          have hocc := hbc.occupant name
          dsimp only
          rw [hR.same_value hocc hk'.ofKey]
          split
          · exact Alike.pure trivial
          · by_cases hnull : (Entries.get? b.inputs name).getD .null = .null
            · rw [if_neg (not_not.mpr hnull), if_neg (not_not.mpr (hocc.eq_null_iff.mp hnull))]
              exact bound _ _
            · rw [if_pos hnull, if_pos (mt hocc.eq_null_iff.mpr hnull)]
              refine (alike_follow hR hocc).bind fun i l hil => ?_
              exact (alike_unplug hR hil).bind fun _ _ _ => bound _ _

theorem alike_connectNext :
    Alike (Workspace.Parallel R M) Error.Kin (fun _ _ => True) (connectNext k k')
      (connectNext j j') := by
  have bound {rest rest' : Edit (List Notice)}
      (hr : Alike (Workspace.Parallel R M) Error.Kin (fun _ _ => True) rest rest') :
      Alike (Workspace.Parallel R M) Error.Kin (fun _ _ => True) (do
        update k fun p => { p with next := .ofKey k' }
        update k' fun c => { c with parent := .ofKey k, parentInput := .null }
        rest)
      (do
        update j fun p => { p with next := .ofKey j' }
        update j' fun c => { c with parent := .ofKey j, parentInput := .null }
        rest') :=
    Alike.bind (alike_update hR hk fun p q hpq => { hpq with next := hk'.ofKey }) fun _ _ _ =>
      Alike.bind (alike_update hR hk' fun p q hpq =>
        { hpq with parent := hk.ofKey, parentInput := rfl }) fun _ _ _ => hr
  unfold connectNext
  refine (alike_require hR hk).bind fun b c hbc => (alike_require hR hk').bind fun b' c' hbc' => ?_
  refine (alike_declarationOf hbc).bind ?_
  rintro d _ rfl
  refine alike_guard Iff.rfl ((alike_declarationOf hbc').bind ?_)
  rintro e _ rfl
  refine alike_guard Iff.rfl (Alike.get.bind fun w u h => ?_)
  rw [h.hangsFrom_eq hR hk' hk]
  refine (alike_same _).bind ?_
  rintro hangs _ rfl
  refine alike_guard Iff.rfl ?_
  dsimp only
  rw [hR.same_value hbc.next hk'.ofKey]
  split
  · exact Alike.pure trivial
  refine (alike_unplug hR hk').bind fun _ _ _ => (alike_deref hR hk).bind fun p q hpq => ?_
  by_cases hnull : p.next = .null
  · have hnull' := hpq.next.eq_null_iff.mp hnull
    simp only [hnull, hnull', ne_eq, not_true_eq_false, if_false]
    exact bound (Alike.pure trivial)
  -- something followed already: it is cut, and put behind the last block of the new chain
  have hnull' := mt hpq.next.eq_null_iff.mpr hnull
  simp only [ne_eq, hnull, hnull', not_false_eq_true, if_true]
  refine (alike_follow hR hpq.next).bind fun i l hil => (alike_unplug hR hil).bind fun _ _ _ => ?_
  exact bound (alike_append hR hk' hpq.next _ _)

end

end Edit

/-! ### Actions on scenes with twins -/

/-- Whether two scenes have twins as their workspaces, and tell nothing. -/
def Scene.Twins {σ τ : Type} (R : String → String → Prop) (s : Scene σ) (t : Scene τ) : Prop :=
  s.workspace.Twins R t.workspace ∧ s.workspace.muted ≠ 0

variable {σ τ α β : Type} {Q : α → β → Prop} {a : Audience σ} {b : Audience τ}

namespace Act

theorem alike_edit {x : Edit α} {y : Edit β} (h : Alike (Workspace.Parallel R (Minting R)) Error.Kin Q x y)
    (hm : ∀ muted, Keeps (fun w : Workspace => w.muted = muted) x) :
    Alike (Scene.Twins R) Error.Kin Q (edit (σ := σ) x) (edit (σ := τ) y) := by
  intro s t hst
  have hxy := h _ _ (Workspace.twins_iff.mp hst.1)
  have hmuted := (hm s.workspace.muted).stateAfter rfl
  unfold stateAfter at hmuted
  unfold edit
  cases hx : x s.workspace <;> cases hy : y t.workspace <;> rw [hx, hy] at hxy <;>
    rw [hx] at hmuted
  · exact ⟨hxy.1, Workspace.twins_iff.mpr hxy.2, fun h0 => hst.2 (hmuted.symm.trans h0)⟩
  · exact hxy.elim
  · exact hxy.elim
  · exact ⟨hxy.1, Workspace.twins_iff.mpr hxy.2, fun h0 => hst.2 (hmuted.symm.trans h0)⟩

theorem tellAll_muted {s : Scene σ} (hm : s.workspace.muted ≠ 0) (ns : List Notice) :
    tellAll a ns s = .ok () s := by
  have h : Ends (tellAll a ns) s (fun _ t => t = s) fun _ _ => False := ends_tellAll_muted hm rfl
  obtain ⟨_, _, h, rfl⟩ := h.exists_ok
  exact h

theorem alike_mapError {K K' : Error → Error → Prop} {f : Error → Error} {x : Act σ α}
    {y : Act τ β} (h : Alike (Scene.Twins R) K Q x y) (hf : ∀ e e', K e e' → K' (f e) (f e')) :
    Alike (Scene.Twins R) K' Q (mapError f x) (mapError f y) := by
  intro s t hst
  have hxy := h s t hst
  unfold mapError
  cases hx : x s <;> cases hy : y t <;> rw [hx, hy] at hxy
  · exact hxy
  · exact hxy.elim
  · exact hxy.elim
  · exact ⟨hf _ _ hxy.1, hxy.2⟩

theorem alike_tellAll (ns ms : List Notice) :
    Alike (Scene.Twins R) Error.Kin (fun _ _ => True) (tellAll a ns) (tellAll b ms) := by
  intro s t hst
  rw [tellAll_muted hst.2, tellAll_muted (hst.1.muted ▸ hst.2)]
  exact ⟨trivial, hst⟩

theorem alike_perform {x y : Edit (List Notice)}
    (h : Alike (Workspace.Parallel R (Minting R)) Error.Kin (fun _ _ => True) x y)
    (hm : ∀ muted, Keeps (fun w : Workspace => w.muted = muted) x) :
    Alike (Scene.Twins R) Error.Kin (fun _ _ => True) (perform a x) (perform b y) :=
  (alike_edit h hm).bind fun _ _ _ => alike_tellAll _ _

theorem alike_create (hR : OneToOne R) {id : Value} (hid : Value.Twin R id id)
    (type position : Value) (fields : List (Key × Value)) :
    Alike (Scene.Twins R) Error.Kin (Key.Twin R) (create a type id position fields)
      (create b type id position fields) := by
  have hnext (m n : Nat) (h : Minting R m n) : Minting R (m + 1) (n + 1) := fun i => by
    have later (m : Nat) : m + 1 + i + 1 = m + (i + 1) + 1 := by omega
    rw [later, later]
    exact h (i + 1)
  refine (alike_edit (Edit.alike_create hR hid hnext (fun _ _ _ h => h 0) type position fields)
    fun muted => (steady_muted muted).keeps_create type id position fields).bind fun _ _ h => ?_
  exact (alike_tellAll _ _).bind fun _ _ _ => Alike.pure h

end Act

/-! ### Rebuilding twins -/

namespace Snapshot

theorem alike_place (hR : OneToOne R) {h : Head} (hid : Value.Twin R h.id h.id) :
    Alike (Scene.Twins R) Error.Kin (Key.Twin R) (place a h) (place b h) := by
  unfold place
  cases h.type with
  | none => exact Alike.throw rfl
  | some type =>
      refine (Act.alike_create hR hid _ _ _).bind fun k j hkj => ?_
      dsimp only
      split
      · refine Alike.bind (Act.alike_edit (Edit.alike_update hR hkj fun _ _ h =>
          { h with enabled := rfl }) fun muted => ?_) fun _ _ _ => Alike.pure hkj
        exact (steady_muted muted).keeps_update k fun _ => ⟨rfl, rfl, rfl, rfl, rfl, rfl⟩
      · exact Alike.pure hkj

mutual

theorem alike_grow (hR : OneToOne R) : ∀ e : Entry, (∀ id ∈ e.ids, Value.Twin R id id) →
    Alike (Scene.Twins R) Error.Kin (Key.Twin R) (grow a e) (grow b e)
  | .fault _, _ => Alike.throw rfl
  | .block h inputs, hi => by
    unfold grow
    unfold Entry.ids at hi
    refine (alike_place hR (hi _ List.mem_cons_self)).bind fun k j hkj => ?_
    refine (alike_growInputs hR hkj inputs fun i hm => hi i (List.mem_cons_of_mem _ hm)).bind ?_
    exact fun _ _ _ => Alike.pure hkj

theorem alike_growInputs (hR : OneToOne R) {k j : Key} (hkj : Key.Twin R k j) :
    ∀ inputs : List (Key × Option Entry), (∀ id ∈ idsOfInputs inputs, Value.Twin R id id) →
      Alike (Scene.Twins R) Error.Kin (fun _ _ => True) (growInputs a k inputs)
        (growInputs b j inputs)
  | [], _ => Alike.pure trivial
  | (socket, e) :: rest, hi => by
    unfold growInputs
    unfold idsOfInputs at hi
    refine (alike_growInput hR hkj socket e fun i hm => hi i (List.mem_append_left _ hm)).bind ?_
    exact fun _ _ _ => alike_growInputs hR hkj rest fun i hm => hi i (List.mem_append_right _ hm)

theorem alike_growInput (hR : OneToOne R) {k j : Key} (hkj : Key.Twin R k j) (socket : Key) :
    ∀ e : Option Entry, (∀ id ∈ idsOfInput e, Value.Twin R id id) →
      Alike (Scene.Twins R) Error.Kin (fun _ _ => True) (growInput a k socket e)
        (growInput b j socket e)
  | none, _ => Alike.throw rfl
  | some e, hi => by
    unfold growInput
    unfold idsOfInput at hi
    refine (alike_grow hR e hi).bind fun c d hcd => ?_
    exact Act.alike_perform (Edit.alike_connectValue hR hkj hcd _) fun muted =>
      (steady_muted muted).keeps_connectValue _ _ _

end

section

variable (hR : OneToOne R)

include hR

theorem alike_growAfter {k j : Key} (hkj : Key.Twin R k j) {es : List Entry}
    (hi : ∀ id ∈ es.flatMap Entry.ids, Value.Twin R id id) :
    Alike (Scene.Twins R) Error.Kin (fun _ _ => True) (growAfter a k es) (growAfter b j es) := by
  induction es generalizing k j with
  | nil => exact Alike.pure trivial
  | cons e es ih =>
      rw [List.flatMap_cons] at hi
      refine (alike_grow hR e fun i hm => hi i (List.mem_append_left _ hm)).bind fun c d hcd => ?_
      refine (Act.alike_perform (Edit.alike_connectNext hR hkj hcd) fun muted =>
        (steady_muted muted).keeps_connectNext _ _).bind fun _ _ _ => ?_
      exact ih hcd fun i hm => hi i (List.mem_append_right _ hm)

theorem alike_growStrand {s : Strand} (hi : ∀ id ∈ s.ids, Value.Twin R id id) :
    Alike (Scene.Twins R) Error.Kin (Key.Twin R) (growStrand a s) (growStrand b s) := by
  unfold Strand.ids at hi
  refine (alike_grow hR s.top fun i hm => hi i (List.mem_append_left _ hm)).bind fun k j hkj => ?_
  refine (alike_growAfter hR hkj fun i hm => hi i (List.mem_append_right _ hm)).bind ?_
  exact fun _ _ _ => Alike.pure hkj

theorem alike_growAll {ss : List Strand} (hi : ∀ id ∈ ss.flatMap Strand.ids, Value.Twin R id id) :
    Alike (Scene.Twins R) Error.Kin (List.Forall₂ (Key.Twin R)) (growAll a ss) (growAll b ss) := by
  induction ss with
  | nil => exact Alike.pure .nil
  | cons s ss ih =>
      rw [List.flatMap_cons] at hi
      refine (alike_growStrand hR fun i hm => hi i (List.mem_append_left _ hm)).bind ?_
      intro k j hkj
      exact (ih fun i hm => hi i (List.mem_append_right _ hm)).bind fun _ _ hks =>
        Alike.pure (.cons hkj hks)

/-- **Twins are rebuilt alike from one document**, with errors of one kind where it is not in
order. -/
theorem alike_rebuild {document : Value} (hi : ∀ strands, outline document = .ok strands →
    ∀ id ∈ strands.flatMap Strand.ids, Value.Twin R id id) :
    Alike (Scene.Twins R) (fun e e' => Archive.isUnreadable e = Archive.isUnreadable e')
      (List.Forall₂ (Key.Twin R)) (rebuild a document) (rebuild b document) := by
  unfold rebuild
  split
  · exact Alike.throw rfl
  · rename_i strands hs
    exact Act.alike_mapError (alike_growAll hR (hi strands hs)) fun _ _ h => h

end

end Snapshot

theorem Archive.alike_restore (hR : OneToOne R) {text : String}
    (hi : ∀ id, Archive.Gives text id → Value.Twin R id id) :
    Alike (Scene.Twins R) (fun e e' => Archive.isUnreadable e = Archive.isUnreadable e')
      (fun _ _ => True) (Archive.restore a text) (Archive.restore b text) := by
  unfold Archive.restore
  split
  · exact Alike.throw rfl
  · rename_i document hd
    refine (Snapshot.alike_rebuild hR fun strands hs id hid => hi id ?_).bind fun _ _ _ =>
      Alike.pure trivial
    exact ⟨document, strands, hd, hs, hid⟩

end Blockwork
