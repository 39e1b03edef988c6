import Blockwork.Proofs.Emptying
import Blockwork.Proofs.Magnitudes
import Blockwork.Proofs.Outlining

/-!
# Copies of workspaces

While a workspace is copied block by block, the blocks that are there are copies of blocks of the
original, and those that hang anywhere hang where the original does (`Workspace.Copies`).  A block
is added to a copy (`Copies.add`), and put where the original is (`Copies.bind`).

No edit on the way is refused: a link that the original has is between blocks that suit each other,
its slot is vacant, and nothing comes to hang from itself (`Edit.ends_connectValue_copy`,
`Edit.ends_connectNext_copy`).  The fields of a block can be written into a new block when each of
them holds what the field makes of it (`Declaration.Settled.filled_eq`).
-/

namespace Blockwork

open Forest (Hangs)

/-! ### Fields that are written again -/

/-- A value that is put under a key of the entries takes the place of the one there. -/
theorem Entries.put_append {α β : Type} [BEq α] [EquivBEq α] {es : List (α × β)} {k : α}
    (h : ∀ e ∈ es, (e.1 == k) = false) (v u : β) (rest : List (α × β)) :
    put (es ++ (k, v) :: rest) k u = es ++ (k, u) :: rest := by
  induction es with
  | nil => simp [put]
  | cons e es ih =>
      obtain ⟨j, w⟩ := e
      have hj : (j == k) = false := h (j, w) List.mem_cons_self
      simp [put, hj, ih fun e he => h e (List.mem_cons_of_mem _ he)]

namespace Declaration

variable {v : Vocabulary} {d : Declaration} {s : Socket}

/-- Writes a value into the fields of a new block. -/
def write (type : Value) (d : Declaration) (fields : List (Key × Value)) (e : Key × Value) :
    Except Error (List (Key × Value)) :=
  match d.field? (.ofKey e.1) with
  | none => .error (.violation (.noSuchField type (.ofKey e.1)))
  | some s => Entries.put fields e.1 <$> s.coerce e.2

theorem filled_eq_foldlM (type : Value) (d : Declaration) (given : List (Key × Value)) :
    Edit.filled type d given = given.foldlM (d.write type) d.defaults := rfl

theorem write_eq {type : Value} {fields : List (Key × Value)} {e : Key × Value} {u : Value}
    (hs : d.field? (.ofKey e.1) = some s) (hu : s.coerce e.2 = .ok u) :
    d.write type fields e = .ok (Entries.put fields e.1 u) := by
  unfold write
  rw [hs]
  exact congrArg (Entries.put fields e.1 <$> ·) hu

/-- A field is found under its name. -/
theorem field?_eq_some (hd : (d.sockets.map (·.name)).Nodup) (hs : s ∈ d.fields) {t : String}
    (ht : s.name = .text t) : d.field? (.text t) = some s := by
  obtain ⟨hmem, hfield⟩ := List.mem_filter.mp hs
  have hsome : (d.sockets.find? (·.name.same (.text t))).isSome :=
    List.find?_isSome.mpr ⟨s, hmem, Value.same_text_right.mpr ht⟩
  obtain ⟨s', hs'⟩ := Option.isSome_iff_exists.mp hsome
  have hname : s'.name = .text t := Value.same_text_right.mp (List.find?_some hs' :)
  obtain rfl : s' = s := List.inj_on_of_nodup_map hd (List.mem_of_find?_eq_some hs') hmem
    (hname.trans ht.symm)
  exact Option.filter_eq_some_iff.mpr ⟨hs', hfield⟩

/-- Whether every field holds what the field makes of it. -/
def Settled (d : Declaration) (fields : List (Key × Value)) : Prop :=
  ∀ k u s, (k, u) ∈ fields → d.field? (.ofKey k) = some s → s.coerce u = .ok u

/-- Values that their fields leave as they are take the places of the defaults. -/
theorem foldlM_write {type : Value} (written : List (Key × Value))
    {rest defaults : List (Key × Value)}
    (hkeys : rest.map (·.1) = defaults.map (·.1))
    (hnd : ((written ++ rest).map (·.1)).Nodup)
    (htexts : ∀ e ∈ written ++ rest, ∃ t, e.1 = .text t)
    (hcoerce : ∀ e ∈ rest, ∃ s, d.field? (.ofKey e.1) = some s ∧ s.coerce e.2 = .ok e.2) :
    rest.foldlM (d.write type) (written ++ defaults) = .ok (written ++ rest) := by
  -- field by field: behind those that are written, the others still hold their defaults
  induction rest generalizing written defaults with
  | nil =>
      rw [List.map_eq_nil_iff.mp hkeys.symm]
      rfl
  | cons e rest ih =>
      obtain ⟨f, fs, rfl⟩ : ∃ f fs, defaults = f :: fs := by
        cases defaults with
        | nil => cases hkeys
        | cons f fs => exact ⟨f, fs, rfl⟩
      obtain ⟨hkey, hkeys⟩ := List.cons.inj hkeys
      obtain ⟨s, hs, hu⟩ := hcoerce e List.mem_cons_self
      have hfresh : ∀ e' ∈ written, (e'.1 == e.1) = false := fun e' he' => by
        obtain ⟨t, ht⟩ := htexts e (List.mem_append_right _ List.mem_cons_self)
        rw [List.map_append, List.nodup_append] at hnd
        rw [Bool.eq_false_iff, ht]
        intro heq
        refine hnd.2.2 e'.1 (List.mem_map_of_mem he') e.1 (List.mem_map_of_mem List.mem_cons_self) ?_
        rw [Key.beq_text_iff.mp heq, ht]
      have hput : Entries.put (written ++ f :: fs) e.1 e.2 = (written ++ [e]) ++ fs := by
        obtain ⟨k, v⟩ := f
        obtain rfl : e.1 = k := hkey
        rw [Entries.put_append hfresh, List.append_assoc]
        rfl
      rw [List.foldlM_cons, write_eq hs hu]
      change rest.foldlM (d.write type) (Entries.put (written ++ f :: fs) e.1 e.2) = _
      rw [hput, ih (written ++ [e]) hkeys]
      · rw [List.append_assoc]
        rfl
      · rwa [List.append_assoc]
      · rwa [List.append_assoc]
      · exact fun e' he' => hcoerce e' (List.mem_cons_of_mem _ he')

section

variable (hv : v.Storable) (hd : d ∈ v.declarations)

include hv hd

/-- The keys of the fields are different. -/
theorem nodup_defaults : (d.defaults.map (·.1)).Nodup := by
  have hfields : d.fields.Pairwise (·.name ≠ ·.name) :=
    (List.pairwise_map.mp (hv.distinct d hd)).sublist List.filter_sublist
  refine List.pairwise_map.mpr (List.pairwise_filterMap.mpr (hfields.imp_of_mem ?_))
  intro s t hs ht hst a ha a' ha' he
  obtain ⟨n, hn⟩ := hv.worded d hd s (List.mem_of_mem_filter hs)
  obtain ⟨n', hn'⟩ := hv.worded d hd t (List.mem_of_mem_filter ht)
  rw [hn] at ha
  rw [hn'] at ha'
  cases ha
  cases ha'
  obtain rfl := Key.text.inj he
  exact hst (hn.trans hn'.symm)

/-- Fields that are written into a new block come out as they are. -/
theorem Settled.filled_eq {type : Value} {fields : List (Key × Value)} (hs : d.Settled fields)
    (hf : d.Fills fields) : Edit.filled type d fields = .ok fields := by
  have hfield : ∀ e ∈ fields, ∃ t s, e.1 = .text t ∧ d.field? (.ofKey e.1) = some s := by
    intro e he
    obtain ⟨s, hs, hk, -⟩ := hf.values e.1 e.2 he
    obtain ⟨t, ht⟩ := hv.worded d hd s (List.mem_of_mem_filter hs)
    rw [ht] at hk
    have hkey : e.1 = .text t := (Option.some.inj hk).symm
    refine ⟨t, s, hkey, ?_⟩
    rw [hkey]
    exact field?_eq_some (hv.distinct d hd) hs ht
  rw [filled_eq_foldlM]
  refine foldlM_write [] hf.keys ?_ (fun e he => ?_) fun e he => ?_
  · rw [List.nil_append, hf.keys]
    exact nodup_defaults hv hd
  · obtain ⟨t, -, ht, -⟩ := hfield e he
    exact ⟨t, ht⟩
  · obtain ⟨-, s, -, hfs⟩ := hfield e he
    exact ⟨s, hfs, hs e.1 e.2 s he hfs⟩

end

end Declaration

/-- What is coerced by a field is no list and no dictionary. -/
theorem Socket.depth_coerce {s : Socket} {v u : Value} (hs : s.isField = true)
    (h : s.coerce v = .ok u) : u.depth = 0 := by
  unfold coerce at h
  cases hk : s.kind with
  | input =>
      rw [isField, hk] at hs
      cases hs
  | text =>
      simp only [hk] at h
      cases h
      rfl
  | colour =>
      simp only [hk] at h
      split at h
      · cases h
        rfl
      · cases h
  | number =>
      simp only [hk] at h
      obtain ⟨_, _, _, n, -, -, -, -, h⟩ := exists_of_coerceNumber h
      unfold settle at h
      obtain ⟨i, -, h⟩ := exists_of_bind_ok h
      split at h
      · cases h
        rfl
      · cases h
        cases n <;> rfl

/-! ### Copies -/

/-- Whether a block is a copy of another one, links apart.  The place of a copy is that of the
original where the original hangs nowhere. -/
structure Block.Copies (c b : Block) : Prop where
  type : c.type = b.type
  fields : c.fields = b.fields
  enabled : c.enabled = .bool b.isEnabled
  place : b.isTop = true → c.position = b.position
  placed : ∃ x y, c.position = [.float x, .float y]

/-- Being a copy has nothing to do with links. -/
theorem Block.Copies.of_core {b c c' : Block} (h : c'.Copies b) (hc : c.core = c'.core) :
    c.Copies b := by
  have htype := congrArg Block.type hc
  have hfields := congrArg Block.fields hc
  have henabled := congrArg Block.enabled hc
  have hposition := congrArg Block.position hc
  dsimp only [Block.core] at htype hfields henabled hposition
  exact ⟨htype.trans h.type, hfields.trans h.fields, henabled.trans h.enabled,
    fun htop => hposition.trans (h.place htop), hposition ▸ h.placed⟩

namespace Workspace

/-- Whether a workspace has copies of blocks of another one, created in an order, where just those
that are hung already hang as the originals do. -/
structure Copies (g : Workspace) (muted : Nat) (w : Workspace) (done : List String)
    (hung : String → Prop) : Prop where
  sound : w.Sound
  vocabulary : w.vocabulary = g.vocabulary
  muted : w.muted = muted
  keys : w.entries.map (·.1) = done.map .text
  copied : ∀ x c, w.block? x = some c → ∃ b, g.block? x = some b ∧ c.Copies b
  seats : ∀ x q, w.seat? x = some q ↔ hung x ∧ g.seat? x = some q

variable {g w : Workspace} {muted : Nat} {done : List String} {hung : String → Prop}
  {x y p : String} {s : Slot}

theorem keys_edit (w : Workspace) (x : String) (f : Block → Block) :
    (w.edit x f).entries.map (·.1) = w.entries.map (·.1) := by
  unfold edit Table.modify
  split
  · rename_i b hb
    change ((w.table.put _ _).entries.map (·.1)) = _
    rw [Table.entries_put, Entries.map_fst_put, if_pos]
    · rfl
    · exact List.any_eq_true.mpr ⟨_, mem_entries.mpr hb, BEq.rfl⟩
  · rfl

theorem keys_bind (w : Workspace) (p : String) (s : Slot) (c : String) :
    (w.bind p s c).entries.map (·.1) = w.entries.map (·.1) := by
  unfold Workspace.bind
  rw [keys_edit, keys_edit]

theorem keys_insert (hx : w.block? x = none) (b : Block) :
    (w.insert x b).entries.map (·.1) = w.entries.map (·.1) ++ [.text x] := by
  change ((w.table.put (.text x) b).entries.map (·.1)) = _
  rw [Table.entries_put, Entries.map_fst_put, if_neg]
  · rfl
  · rintro hany
    obtain ⟨⟨k, c⟩, he, hk⟩ := List.any_eq_true.mp hany
    obtain rfl := Key.beq_text_iff.mp hk
    rw [mem_entries.mp he] at hx
    cases hx

theorem text_mem_keys : Key.text x ∈ w.entries.map (·.1) ↔ (w.block? x).isSome := by
  rw [Option.isSome_iff_exists, List.mem_map]
  constructor
  · rintro ⟨⟨k, b⟩, he, rfl⟩
    exact ⟨b, mem_entries.mp he⟩
  · rintro ⟨b, hb⟩
    exact ⟨_, mem_entries.mpr hb, rfl⟩

theorem nodup_keys (w : Workspace) : (w.entries.map (·.1)).Nodup := by
  refine List.Nodup.of_map Key.name ?_
  rw [List.map_map]
  exact w.table.distinct

/-! ### Slots that are vacant -/

/-- A block that hangs nowhere is put into a vacant slot by one link. -/
theorem plug_of_vacant (hs : w.child? p s = none) (hy : w.seat? y = none) :
    w.plug p s y = w.bind p s y := by
  rw [plug, if_neg (by simp [hs]), release, hs]
  exact congrArg (Workspace.bind · p s y) (cut_of_seat?_none hy)

theorem Follows.eq_bind {w' : Workspace} (h : w.Follows p y w') (hs : w.child? p none = none)
    (hy : w.seat? y = none) : w' = w.bind p none y := by
  have hcut : w.cut y = w := cut_of_seat?_none hy
  cases h with
  | already hc =>
      rw [hs] at hc
      cases hc
  | alone => rw [splice, hcut, release, hs]
  | before _ hd =>
      rw [hcut, hs] at hd
      cases hd

namespace Copies

theorem congr {hung' : String → Prop} (h : Copies g muted w done hung)
    (hh : ∀ z q, g.seat? z = some q → (hung' z ↔ hung z)) : Copies g muted w done hung' :=
  ⟨h.sound, h.vocabulary, h.muted, h.keys, h.copied, fun z q => by
    rw [h.seats]
    exact and_congr_left fun hz => (hh z q hz).symm⟩

theorem isSome_block? (h : Copies g muted w done hung) : (w.block? x).isSome ↔ x ∈ done := by
  rw [← text_mem_keys, h.keys, List.mem_map]
  exact ⟨fun ⟨y, hy, he⟩ => Key.text.inj he ▸ hy, fun hx => ⟨x, hx, rfl⟩⟩

theorem nodup (h : Copies g muted w done hung) : done.Nodup :=
  List.Nodup.of_map Key.text (h.keys ▸ w.nodup_keys)

theorem declarationOf_eq (h : Copies g muted w done hung) {c b : Block} (hc : c.Copies b) :
    w.declarationOf c = g.declarationOf b := by
  unfold declarationOf
  rw [h.vocabulary, hc.type]

theorem type? (h : Copies g muted w done hung) (hx : x ∈ done) : w.type? x = g.type? x := by
  obtain ⟨c, hc⟩ := Option.isSome_iff_exists.mp (h.isSome_block?.mpr hx)
  obtain ⟨b, hb, hcopies⟩ := h.copied x c hc
  refine Option.ext fun d => ?_
  simp only [type?_eq_some, hc, hb, Option.some.injEq, exists_eq_left', h.declarationOf_eq hcopies]

/-- What hangs somewhere hangs there in the end. -/
theorem hangs (h : Copies g muted w done hung) (hxy : Hangs w.above? x y) : Hangs g.above? x y := by
  refine Relation.ReflTransGen.mono (fun a b hab => ?_) x y hxy
  obtain ⟨s, hs⟩ := above?_eq_some.mp hab
  exact above?_eq_some.mpr ⟨s, ((h.seats a _).mp hs).2⟩

/-! ### Steps of a copy -/

/-- One more block is copied. -/
theorem add (h : Copies g muted w done hung) {w' : Workspace} {c b : Block} (hs : w'.Sound)
    (hv : w'.vocabulary = w.vocabulary) (hm : w'.muted = w.muted)
    (hk : w'.entries.map (·.1) = w.entries.map (·.1) ++ [.text x])
    (hw : ∀ y, w'.block? y = if x = y then some c else w.block? y) (hx : x ∉ done)
    (hb : g.block? x = some b) (hc : c.Copies b) (hcx : c.seat? = none) :
    Copies g muted w' (done ++ [x]) hung where
  sound := hs
  vocabulary := hv.trans h.vocabulary
  muted := hm.trans h.muted
  keys := by rw [hk, h.keys, List.map_append, List.map_singleton]
  copied y c' hy := by
    rw [hw] at hy
    split at hy
    · rename_i hxy
      subst hxy
      exact ⟨b, hb, Option.some.inj hy ▸ hc⟩
    · exact h.copied y c' hy
  seats y q := by
    rw [← h.seats, Workspace.seat?, Workspace.seat?, hw]
    split
    · rename_i hxy
      subst hxy
      have hnone : w.block? x = none := by
        rw [← Option.not_isSome_iff_eq_none, h.isSome_block?]
        exact hx
      rw [hnone, Option.bind_some, hcx]
      rfl
    · rfl

section

variable (h : Copies g muted w done hung) (hg : g.Sound) (hx : x ∈ done) (hy : y ∈ done)
  (hseat : g.seat? y = some (x, s)) (hloose : w.seat? y = none)

include h hg hseat

theorem vacant (hloose : w.seat? y = none) : w.child? x s = none := by
  by_contra hc
  obtain ⟨c, hc⟩ := Option.ne_none_iff_exists'.mp hc
  have hw := (h.sound.linked ..).mp hc
  have hgc := (hg.linked x s c).mpr ((h.seats c _).mp hw).2
  have hgy := (hg.linked x s y).mpr hseat
  rw [Option.some.inj (hgc.symm.trans hgy), hloose] at hw
  cases hw

include hx hy

/-- A block may be put where the original is. -/
theorem connects : w.Connects x s y := by
  refine ⟨?_, fun hh => ?_⟩
  · obtain ⟨d, e, hd, he, ht⟩ := hg.suited _ _ _ hseat
    exact ⟨d, e, (h.type? hx).trans hd, (h.type? hy).trans he, ht⟩
  · exact hg.rooted.not_hangs (above?_eq_some.mpr ⟨s, hseat⟩) (h.hangs hh)

include hloose

/-- One more block hangs where the original does. -/
theorem bind : Copies g muted (w.bind x s y) done fun z => hung z ∨ z = y where
  sound := by
    have hc := h.connects hg hx hy hseat
    exact h.sound.bind (h.vacant hg hseat hloose) hloose hc.1 hc.2
  vocabulary := h.vocabulary
  muted := h.muted
  keys := by rw [keys_bind, h.keys]
  copied z c hc := by
    have hcore := (sameCore_bind w x s y).core? z
    rw [core?, hc, Option.map_some] at hcore
    obtain ⟨c', hc', he⟩ := Option.map_eq_some_iff.mp hcore.symm
    obtain ⟨b, hb, hcopies⟩ := h.copied z c' hc'
    exact ⟨b, hb, hcopies.of_core he.symm⟩
  seats z q := by
    rw [seat?_bind (h.isSome_block?.mpr hy)]
    split
    · rename_i hyz
      subst hyz
      rw [hseat]
      simp
    · rename_i hyz
      rw [h.seats]
      simp [Ne.symm hyz]

end

end Copies

end Workspace

/-! ### Edits that copy -/

namespace Edit

variable {g w : Workspace} {muted : Nat} {done : List String} {hung : String → Prop}
  {x y : String} {good : List Notice → Workspace → Prop} {bad : Error → Workspace → Prop}

section

variable (h : g.Copies muted w done hung) (hg : g.Sound) (hx : x ∈ done) (hy : y ∈ done)
  (hloose : w.seat? y = none)

include h hg hx hy hloose

theorem ends_connectValue_copy {s : String} (hseat : g.seat? y = some (x, some s))
    (hgood : ∀ ns, g.Copies muted (w.bind x (some s) y) done (fun z => hung z ∨ z = y) →
      good ns (w.bind x (some s) y)) :
    Ends (connectValue (.text x) (.text s) (.text y)) w good bad := by
  refine ends_connectValue h.sound (fun e hno => ?_) fun x' s' y' ns hx' hs' hy' _ => ?_
  · exact absurd (h.connects hg hx hy hseat) (hno x s y rfl rfl rfl)
  · cases hx'
    cases hs'
    cases hy'
    rw [Workspace.plug_of_vacant (h.vacant hg hseat hloose) hloose]
    exact hgood ns (h.bind hg hx hy hseat hloose)

theorem ends_connectNext_copy (hseat : g.seat? y = some (x, none))
    (hgood : ∀ ns, g.Copies muted (w.bind x none y) done (fun z => hung z ∨ z = y) →
      good ns (w.bind x none y)) :
    Ends (connectNext (.text x) (.text y)) w good bad := by
  refine ends_connectNext h.sound (fun e hno => ?_) fun x' y' ns w' hx' hy' _ hf => ?_
  · exact absurd (h.connects hg hx hy hseat) (hno x y rfl rfl)
  · cases hx'
    cases hy'
    rw [hf.eq_bind (h.vacant hg hseat hloose) hloose]
    exact hgood ns (h.bind hg hx hy hseat hloose)

end

end Edit

end Blockwork
