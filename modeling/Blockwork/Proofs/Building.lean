import Blockwork.Proofs.Copying
import Blockwork.Proofs.Documents
import Blockwork.Proofs.Intact
import Blockwork.Proofs.Loading

/-!
# What is built from an outline

Where a document is rebuilt, every entry of its outline has become a block, and there are no others
(`Snapshot.rebuilds_whole`); so it is with a text that is loaded (`History.loads_whole`).  Which
block an entry has become, and that it is in the socket or behind the block that the outline has it
in or behind, is said along the outline (`Snapshot.Entry.Built`), together with the names of all
these blocks, in the order in which they were created.

Whatever is built leaves the blocks that were there as they are, but for the slots of the one that
it is put in or behind (`Workspace.Grown`).  So what has been built stays built.

An outline does not hold what stands behind an entry that is plugged into a block: the link of such
an entry is not read (`Snapshot.entryOf_erase_next`).
-/

namespace Blockwork

open Snapshot (Entry Strand Head)

variable {σ : Type}

/-! ### Workspaces that grow -/

/-- The changes of a workspace that add blocks with certain names, created in this order, and leave
those that were there as they are, but for certain slots. -/
structure Workspace.Grown (w w' : Workspace) (names : List String)
    (filled : String → Slot → Prop) : Prop where
  later : w.Later w'
  muted : w'.muted = w.muted
  keys : w'.entries.map (·.1) = w.entries.map (·.1) ++ names.map .text
  core? : ∀ y, (w.block? y).isSome → w'.core? y = w.core? y
  seat? : ∀ y, (w.block? y).isSome → w'.seat? y = w.seat? y
  child? : ∀ y s, (w.block? y).isSome → ¬ filled y s → w'.child? y s = w.child? y s

namespace Workspace

variable {w w₁ w₂ : Workspace} {names more : List String} {filled filled' : String → Slot → Prop}
  {x y p c : String} {s : Slot}

theorem Sound.grown (h : w.Sound) : w.Grown w [] filled :=
  ⟨h.later, rfl, (List.append_nil _).symm, fun _ _ => rfl, fun _ _ => rfl, fun _ _ _ _ => rfl⟩

namespace Grown

theorem isSome_iff (h : w.Grown w₁ names filled) :
    (w₁.block? y).isSome ↔ (w.block? y).isSome ∨ y ∈ names := by
  rw [← text_mem_keys, ← text_mem_keys, h.keys, List.mem_append]
  refine or_congr_right (List.mem_map.trans ⟨?_, fun hy => ⟨y, hy, rfl⟩⟩)
  rintro ⟨z, hz, hzy⟩
  exact Key.text.inj hzy ▸ hz

/-- The new blocks have different names, none of which was in use. -/
theorem nodup (h : w.Grown w₁ names filled) : names.Nodup :=
  List.Nodup.of_map Key.text (List.nodup_append.mp (h.keys ▸ w₁.nodup_keys)).2.1

theorem new (h : w.Grown w₁ names filled) (hy : y ∈ names) : ¬ (w.block? y).isSome := fun hw =>
  (List.nodup_append.mp (h.keys ▸ w₁.nodup_keys)).2.2 _ (text_mem_keys.mpr hw) _
    (List.mem_map_of_mem hy) rfl

theorem trans (h : w.Grown w₁ names filled) (k : w₁.Grown w₂ more filled')
    (hf : ∀ y s, (w.block? y).isSome → filled' y s → filled y s) :
    w.Grown w₂ (names ++ more) filled where
  later := h.later.trans k.later
  muted := k.muted.trans h.muted
  keys := by rw [k.keys, h.keys, List.map_append, List.append_assoc]
  core? y hy := (k.core? y (h.isSome_iff.mpr (.inl hy))).trans (h.core? y hy)
  seat? y hy := (k.seat? y (h.isSome_iff.mpr (.inl hy))).trans (h.seat? y hy)
  child? y s hy hs := (k.child? y s (h.isSome_iff.mpr (.inl hy)) fun hk => hs (hf y s hy hk)).trans
    (h.child? y s hy hs)

theorem mono (h : w.Grown w₁ names filled)
    (hf : ∀ y s, (w.block? y).isSome → filled y s → filled' y s) : w.Grown w₁ names filled' :=
  { h with child? := fun y s hy hs => h.child? y s hy fun hk => hs (hf y s hy hk) }

/-- A new block is put into a slot. -/
theorem bind (h : w.Grown w₁ names filled) (hc : w₁.Connects p s c) (hs : w₁.child? p s = none)
    (hx : w₁.seat? c = none) (hnew : c ∈ names) (hf : (w.block? p).isSome → filled p s) :
    w.Grown (w₁.bind p s c) names filled where
  later := h.later.trans ((sameCore_bind w₁ p s c).later (h.later.sound.bind hs hx hc.1 hc.2))
  muted := h.muted
  keys := (keys_bind w₁ p s c).trans h.keys
  core? y hy := (core?_bind y).trans (h.core? y hy)
  seat? y hy := by
    have hcy : c ≠ y := fun e => h.new hnew (e ▸ hy)
    rw [seat?_bind (h.isSome_iff.mpr (.inr hnew)), if_neg hcy, h.seat? y hy]
  child? y t hy ht := by
    rw [child?_bind hc.1.isSome_parent, if_neg, h.child? y t hy ht]
    rintro ⟨rfl, rfl⟩
    exact ht (hf hy)

/-- A new block is changed. -/
theorem edit (h : w.Grown w₁ names filled) {f : Block → Block} (hf : Harmless f) (hx : x ∈ names) :
    w.Grown (w₁.edit x f) names filled where
  later := h.later.trans (Harmless.later h.later.sound hf x)
  muted := h.muted
  keys := (keys_edit w₁ x f).trans h.keys
  core? y hy := by
    have hxy : x ≠ y := fun e => h.new hx (e ▸ hy)
    rw [← h.core? y hy, Workspace.core?, block?_edit, if_neg hxy, Workspace.core?]
  seat? y hy := (hf.seat? x y).trans (h.seat? y hy)
  child? y s hy hs := (hf.child? x y s).trans (h.child? y s hy hs)

end Grown

/-- A block is created. -/
theorem Later.grown_insert {b : Block} (h : w.Later (w.insert x b)) (hx : w.block? x = none)
    (hb : b.core = b) : w.Grown (w.insert x b) [x] filled where
  later := h
  muted := rfl
  keys := keys_insert hx b
  core? y hy := by
    have hxy : x ≠ y := fun e => by rw [← e, hx] at hy; cases hy
    rw [Workspace.core?, block?_insert, if_neg hxy, Workspace.core?]
  seat? y _ := seat?_insert hx hb y
  child? y s _ _ := child?_insert hx hb y s

end Workspace

/-! ### Entries that are built -/

namespace Snapshot

variable {w w' : Workspace} {x y : String} {xs : List String}

/-- Whether a block is what an entry says about its block itself. -/
structure Head.Makes (h : Head) (v : Vocabulary) (x : String) (b : Block) : Prop where
  type : h.type = some b.type
  id : h.id = .null ∨ h.id = .text x
  enabled : b.enabled = .bool !h.disabled
  position : Edit.coordinates h.position = .ok b.position
  fields : ∃ d, (do v.get (← b.type.toKey)) = .ok d ∧ Edit.filled b.type d h.fields = .ok b.fields

mutual

/-- Whether the block with a name is built from an entry, and further names are those of the blocks
built from the entries inside, in order. -/
def Entry.Built (w : Workspace) (x : String) : Entry → List String → Prop
  | .fault _, _ => False
  | .block h inputs, xs =>
    (∃ b, w.core? x = some b ∧ h.Makes w.vocabulary x b) ∧ BuiltInputs w x inputs xs

/-- Whether names are those of the blocks built from what is plugged into a block. -/
def BuiltInputs (w : Workspace) (x : String) : List (Key × Option Entry) → List String → Prop
  | [], xs => xs = []
  | (socket, e) :: rest, xs =>
    ∃ ys zs, xs = ys ++ zs ∧ BuiltInput w x socket e ys ∧ BuiltInputs w x rest zs

/-- Whether names are those of the blocks built from what is plugged into one socket, the first of
them in the socket. -/
def BuiltInput (w : Workspace) (x : String) (socket : Key) : Option Entry → List String → Prop
  | none, _ => False
  | some e, xs => ∃ s y ys, socket = .text s ∧ xs = y :: ys ∧ w.seat? y = some (x, some s) ∧
    e.Built w y ys

end

/-- Whether names are those of the blocks built from entries that follow a block, each behind the
one before it. -/
def BuiltAfter (w : Workspace) (x : String) : List Entry → List String → Prop
  | [], xs => xs = []
  | e :: es, xs => ∃ y ys zs, xs = y :: ys ++ zs ∧ w.seat? y = some (x, none) ∧ e.Built w y ys ∧
    BuiltAfter w y es zs

/-- Whether the block with a name is built from the first entry of a chain, and further names are
those of the other blocks of the chain and of all that is plugged into blocks of the chain. -/
def Strand.Built (w : Workspace) (x : String) (strand : Strand) (xs : List String) : Prop :=
  ∃ ys zs, xs = ys ++ zs ∧ w.seat? x = none ∧ strand.top.Built w x ys ∧
    BuiltAfter w x strand.following zs

/-- Whether names are those of the blocks built from chains, and which of them are at the top. -/
def BuiltAll (w : Workspace) : List Strand → List String → List String → Prop
  | [], tops, xs => tops = [] ∧ xs = []
  | strand :: strands, tops, xs => ∃ x rest ys zs, tops = x :: rest ∧ xs = x :: ys ++ zs ∧
    strand.Built w x ys ∧ BuiltAll w strands rest zs

/-! ### As many blocks as entries -/

/-- Whether a block may have a name when an entry gives it an id; `null` stands for none. -/
def Gives (id : Value) (x : String) : Prop := id = .null ∨ id = .text x

mutual

theorem Entry.Built.ids : ∀ {e : Entry} {x : String} {xs : List String}, e.Built w x xs →
    List.Forall₂ Gives e.ids (x :: xs)
  | .fault _, _, _, h => h.elim
  | .block _ _, _, _, ⟨⟨_, _, hb⟩, h⟩ => .cons hb.id h.ids

theorem BuiltInputs.ids : ∀ {inputs : List (Key × Option Entry)} {x : String} {xs : List String},
    BuiltInputs w x inputs xs → List.Forall₂ Gives (idsOfInputs inputs) xs
  | [], _, _, rfl => .nil
  | (_, _) :: _, _, _, ⟨_, _, rfl, h, k⟩ => List.rel_append h.ids k.ids

theorem BuiltInput.ids : ∀ {e : Option Entry} {x : String} {socket : Key} {xs : List String},
    BuiltInput w x socket e xs → List.Forall₂ Gives (idsOfInput e) xs
  | none, _, _, _, h => h.elim
  | some _, _, _, _, ⟨_, _, _, _, rfl, _, h⟩ => h.ids

end

/-- Chains hold as many blocks as they have entries, under the ids that these give them. -/
theorem BuiltAfter.ids {es : List Entry} (h : BuiltAfter w x es xs) :
    List.Forall₂ Gives (es.flatMap Entry.ids) xs := by
  induction es generalizing x xs with
  | nil =>
      cases h
      exact .nil
  | cons e es ih =>
      obtain ⟨y, ys, zs, rfl, -, he, hes⟩ := h
      exact List.rel_append he.ids (ih hes)

theorem Strand.Built.ids {strand : Strand} (h : strand.Built w x xs) :
    List.Forall₂ Gives strand.ids (x :: xs) := by
  obtain ⟨ys, zs, rfl, -, htop, hrest⟩ := h
  exact List.rel_append htop.ids hrest.ids

theorem BuiltAll.ids {strands : List Strand} {tops : List String}
    (h : BuiltAll w strands tops xs) : List.Forall₂ Gives (strands.flatMap Strand.ids) xs := by
  induction strands generalizing tops xs with
  | nil =>
      obtain ⟨-, rfl⟩ := h
      exact .nil
  | cons strand strands ih =>
      obtain ⟨x, rest, ys, zs, -, rfl, hstrand, hall⟩ := h
      exact List.rel_append hstrand.ids (ih hall)

/-! ### What has been built stays built -/

/-- Whether blocks with certain names are the same in two workspaces, apart from what is in their
slots. -/
structure Agrees (w w' : Workspace) (xs : List String) : Prop where
  vocabulary : w'.vocabulary = w.vocabulary
  core? : ∀ y ∈ xs, w'.core? y = w.core? y
  seat? : ∀ y ∈ xs, w'.seat? y = w.seat? y

theorem Agrees.of_subset {ys : List String} (h : Agrees w w' xs) (hys : ys ⊆ xs) :
    Agrees w w' ys :=
  ⟨h.vocabulary, fun y hy => h.core? y (hys hy), fun y hy => h.seat? y (hys hy)⟩

/-- Blocks that are there stay as they are when others are added. -/
theorem agrees_of_grown {names : List String}
    {filled : String → Slot → Prop} (h : w.Grown w' names filled)
    (hxs : ∀ y ∈ xs, (w.block? y).isSome) : Agrees w w' xs :=
  ⟨h.later.vocabulary, fun y hy => h.core? y (hxs y hy), fun y hy => h.seat? y (hxs y hy)⟩

mutual

theorem Entry.Built.agrees : ∀ {e : Entry} {x : String} {xs : List String}, e.Built w x xs →
    w'.core? x = w.core? x → Agrees w w' xs → e.Built w' x xs
  | .fault _, _, _, h, _, _ => h
  | .block _ _, _, _, ⟨⟨b, hx, hb⟩, h⟩, hc, hs =>
    ⟨⟨b, hc.trans hx, hs.vocabulary ▸ hb⟩, h.agrees hs⟩

theorem BuiltInputs.agrees : ∀ {inputs : List (Key × Option Entry)} {x : String}
    {xs : List String}, BuiltInputs w x inputs xs → Agrees w w' xs → BuiltInputs w' x inputs xs
  | [], _, _, h, _ => h
  | (_, _) :: _, _, _, ⟨ys, zs, rfl, h, k⟩, hs =>
    ⟨ys, zs, rfl, h.agrees (hs.of_subset (List.subset_append_left ys zs)),
      k.agrees (hs.of_subset (List.subset_append_right ys zs))⟩

theorem BuiltInput.agrees : ∀ {e : Option Entry} {x : String} {socket : Key} {xs : List String},
    BuiltInput w x socket e xs → Agrees w w' xs → BuiltInput w' x socket e xs
  | none, _, _, _, h, _ => h
  | some _, _, _, _, ⟨s, y, ys, hsocket, rfl, hseat, h⟩, hs =>
    ⟨s, y, ys, hsocket, rfl, (hs.seat? y List.mem_cons_self).trans hseat,
      h.agrees (hs.core? y List.mem_cons_self) (hs.of_subset (List.subset_cons_self y ys))⟩

end

theorem BuiltAfter.agrees {es : List Entry} (h : BuiltAfter w x es xs) (hs : Agrees w w' xs) :
    BuiltAfter w' x es xs := by
  induction es generalizing x xs with
  | nil => exact h
  | cons e es ih =>
      obtain ⟨y, ys, zs, rfl, hseat, he, hes⟩ := h
      have hrest := hs.of_subset (List.subset_cons_self y (ys ++ zs))
      refine ⟨y, ys, zs, rfl, (hs.seat? y List.mem_cons_self).trans hseat, ?_, ih hes ?_⟩
      · exact he.agrees (hs.core? y List.mem_cons_self)
          (hrest.of_subset (List.subset_append_left ys zs))
      · exact hrest.of_subset (List.subset_append_right ys zs)

theorem Strand.Built.agrees {strand : Strand} (h : strand.Built w x xs)
    (hs : Agrees w w' (x :: xs)) : strand.Built w' x xs := by
  obtain ⟨ys, zs, rfl, hseat, htop, hrest⟩ := h
  have hxs := hs.of_subset (List.subset_cons_self x (ys ++ zs))
  refine ⟨ys, zs, rfl, (hs.seat? x List.mem_cons_self).trans hseat, ?_, hrest.agrees ?_⟩
  · exact htop.agrees (hs.core? x List.mem_cons_self)
      (hxs.of_subset (List.subset_append_left ys zs))
  · exact hxs.of_subset (List.subset_append_right ys zs)

theorem BuiltAll.agrees {strands : List Strand} {tops : List String}
    (h : BuiltAll w strands tops xs) (hs : Agrees w w' xs) : BuiltAll w' strands tops xs := by
  induction strands generalizing tops xs with
  | nil => exact h
  | cons strand strands ih =>
      obtain ⟨x, rest, ys, zs, rfl, rfl, hstrand, hall⟩ := h
      refine ⟨x, rest, ys, zs, rfl, rfl, ?_, ih hall ?_⟩
      · exact hstrand.agrees (hs.of_subset (List.subset_append_left (x :: ys) zs))
      · exact hs.of_subset (List.subset_append_right (x :: ys) zs)

/-! ### Building -/

/-- Whether everything may be built in a workspace that asks for ids of a kind, while changes are
kept from the audience a number of times. -/
structure Ready (muted : Nat) (given : Value → Prop) (w : Workspace) : Prop where
  sound : w.Sound
  minted : w.Minted
  muted : w.muted = muted
  admits : ∀ id, given id → w.Admits id

theorem Ready.grown {muted : Nat} {given : Value → Prop} {names : List String}
    {filled : String → Slot → Prop} (h : Ready muted given w) (hg : w.Grown w' names filled) :
    Ready muted given w' where
  sound := hg.later.sound
  minted := hg.later.minted h.minted
  muted := hg.muted.trans h.muted
  admits id hid := (h.admits id hid).mono hg.later.created

end Snapshot

/-- Whether an audience leaves a workspace as it is where changes are kept from it a number of
times. -/
def Audience.AloofAt (a : Audience σ) (muted : Nat) : Prop :=
  ∀ n w, w.muted = muted → Keeps (fun s : Scene σ => s.workspace = w) (Act.tell a n)

theorem Audience.Aloof.aloofAt {a : Audience σ} (h : a.Aloof) (muted : Nat) : a.AloofAt muted :=
  fun n w _ => Act.keeps_tell (h w) n

/-- What an audience is not told it does not answer. -/
theorem Audience.aloofAt_of_ne_zero (a : Audience σ) {muted : Nat} (hm : muted ≠ 0) :
    a.AloofAt muted := by
  rintro n w hw s rfl
  refine Ends.bind (Ends.get ?_)
  dsimp only
  rw [if_neg (hw.symm ▸ hm)]
  exact Ends.pure rfl

variable {a : Audience σ} {muted : Nat} {s : Scene σ}

/-- An audience that is told of something leaves the workspace as it is. -/
theorem Act.ends_tellAll_aloof (ha : a.AloofAt muted) {ns : List Notice}
    (hm : s.workspace.muted = muted) {good : Unit → Scene σ → Prop}
    (hg : ∀ t, t.workspace = s.workspace → good () t) :
    Ends (tellAll a ns) s good fun _ _ => True :=
  (keeps_tellAll (fun n => ha n s.workspace hm) ns s rfl).mono (fun _ => hg) fun _ _ _ => trivial

namespace Snapshot

variable {given : Value → Prop}

/-- A block is created. -/
theorem Ready.ends_create (ha : a.AloofAt muted) (hs : Ready muted given s.workspace)
    {type id position : Value} {fields : List (Key × Value)} (hid : given id)
    {good : Key → Scene σ → Prop}
    (hg : ∀ x d fields' coords t, Gives id x →
      Edit.Creates s.workspace type id position fields d fields' coords →
      s.workspace.Grown t.workspace [x] (fun _ _ => False) →
      t.workspace.block? x = some (Edit.newBlock x type d fields' coords) → good (.text x) t) :
    Ends (Act.create a type id position fields) s good fun _ _ => True := by
  have hid := hs.admits _ hid
  refine Ends.bind (Act.ends_edit (Edit.ends_create hid.isId (fun _ _ => trivial)
    fun d fields' coords hc => Ends.bind (Act.ends_tellAll_aloof ha ?_ fun t ht => Ends.pure ?_)))
  · exact hs.muted
  · refine hg _ d fields' coords t ?_ hc ?_ ?_
    · rcases hid with rfl | ⟨x, rfl, -⟩
      · exact .inl rfl
      · exact .inr rfl
    · rw [ht]
      exact (hs.sound.later_insert hs.minted hid hc).grown_insert (hs.minted.new hc) rfl
    · rw [ht, Workspace.block?_insert, if_pos rfl]

/-- A block is created as an entry asks for it, without anything plugged into it. -/
theorem Ready.ends_place (ha : a.AloofAt muted) (hs : Ready muted given s.workspace) {h : Head}
    (hid : given h.id) :
    Ends (place a h) s (fun k t => ∃ x b, k = .text x ∧
      s.workspace.Grown t.workspace [x] (fun _ _ => False) ∧ t.workspace.block? x = some b ∧
      b.core = b ∧ h.Makes t.workspace.vocabulary x b) fun _ _ => True := by
  unfold place
  cases htype : h.type with
  | none => exact Ends.throw trivial
  | some type =>
      refine Ends.bind (ends_create ha hs hid fun x d fields coords t hx hc hgrown hb => ?_)
      have hdeclared := hgrown.later.vocabulary ▸ hc.declared
      cases hoff : h.disabled with
      | false =>
          refine Ends.pure ⟨x, _, rfl, hgrown, hb, rfl, ?_⟩
          exact ⟨htype, hx, by rw [hoff]; rfl, hc.placed, d, hdeclared, hc.filled⟩
      | true =>
          let off (b : Block) : Block := { b with enabled := .bool false }
          have hoffed : (t.workspace.edit x off).block? x =
              some (off (Edit.newBlock x type d fields coords)) := by
            rw [Workspace.block?_edit, if_pos rfl, hb, Option.map_some]
          have hgrown := hgrown.edit (Workspace.harmless_enabled (.bool false)) List.mem_cons_self
          refine Ends.bind (Act.ends_edit (Ends.modify (Ends.pure
            ⟨x, _, rfl, hgrown, hoffed, rfl, ?_⟩)))
          exact ⟨htype, hx, by rw [hoff]; rfl, hc.placed, d, hdeclared, hc.filled⟩

/-! ### Links that are made -/

/-- A block that hangs nowhere is plugged into a socket that is vacant. -/
theorem Ready.ends_connectValue (ha : a.AloofAt muted) (hs : Ready muted given s.workspace)
    {x y : String} {socket : Key} (hy : s.workspace.seat? y = none)
    (hvacant : ∀ t, socket = .text t → s.workspace.child? x (some t) = none) :
    Ends (Act.perform a (Edit.connectValue (.text x) (.ofKey socket) (.text y))) s
      (fun _ u => ∃ t, socket = .text t ∧ s.workspace.Connects x (some t) y ∧
        u.workspace = s.workspace.bind x (some t) y) fun _ _ => True := by
  refine Ends.bind (Act.ends_edit (Edit.ends_connectValue hs.sound (fun _ _ => trivial) ?_))
  intro p t c ns hp ht hc hconnects
  cases hp
  cases hc
  obtain rfl := Value.ofKey_eq_text ht
  rw [Workspace.plug_of_vacant (hvacant t rfl) hy]
  refine Act.ends_tellAll_aloof ha ?_ fun u hu => ⟨t, rfl, hconnects, hu⟩
  exact hs.muted

/-- A block that hangs nowhere is let follow one that nothing follows. -/
theorem Ready.ends_connectNext (ha : a.AloofAt muted) (hs : Ready muted given s.workspace)
    {x y : String} (hy : s.workspace.seat? y = none)
    (hvacant : s.workspace.child? x none = none) :
    Ends (Act.perform a (Edit.connectNext (.text x) (.text y))) s
      (fun _ u => s.workspace.Connects x none y ∧ u.workspace = s.workspace.bind x none y)
      fun _ _ => True := by
  refine Ends.bind (Act.ends_edit (Edit.ends_connectNext hs.sound (fun _ _ => trivial) ?_))
  intro p c ns w' hp hc hconnects hf
  cases hp
  cases hc
  rw [hf.eq_bind hvacant hy]
  refine Act.ends_tellAll_aloof ha ?_ fun u hu => ⟨hconnects, hu⟩
  exact hs.muted

/-! ### Entries -/

/-- The sockets of a block that have one of certain keys. -/
def Sockets (x : String) (keys : List Key) (y : String) (slot : Slot) : Prop :=
  y = x ∧ ∃ t, slot = some t ∧ Key.text t ∈ keys

/-- What comes of building an entry: its block and those of the entries inside, the first of which
hangs nowhere, and has nothing behind it. -/
structure Sprouts (w w' : Workspace) (e : Entry) (x : String) (xs : List String) : Prop where
  grown : w.Grown w' (x :: xs) fun _ _ => False
  built : e.Built w' x xs
  loose : w'.seat? x = none
  last : w'.child? x none = none

theorem Sockets.mono {keys keys' : List Key} {slot : Slot} (h : Sockets x keys y slot)
    (hkeys : keys ⊆ keys') : Sockets x keys' y slot := by
  obtain ⟨rfl, t, rfl, ht⟩ := h
  exact ⟨rfl, t, rfl, hkeys ht⟩

/-- What was built is put into a slot. -/
theorem Sprouts.bind {e : Entry} {ys : List String} {slot : Slot} {filled : String → Slot → Prop}
    (h : Sprouts w w' e y ys) (hc : w'.Connects x slot y) (hvacant : w'.child? x slot = none)
    (hf : filled x slot) : w.Grown (w'.bind x slot y) (y :: ys) filled ∧
      (w'.bind x slot y).seat? y = some (x, slot) ∧ e.Built (w'.bind x slot y) y ys := by
  have hy : (w'.block? y).isSome := h.grown.isSome_iff.mpr (.inr List.mem_cons_self)
  have hyys : y ∉ ys := (List.nodup_cons.mp h.grown.nodup).1
  refine ⟨?_, ?_, h.built.agrees (Workspace.core?_bind y) ⟨rfl, fun z _ => ?_, fun z hz => ?_⟩⟩
  · exact (h.grown.mono fun _ _ _ hno => hno.elim).bind hc hvacant h.loose List.mem_cons_self
      fun _ => hf
  · rw [Workspace.seat?_bind hy, if_pos rfl]
  · exact Workspace.core?_bind z
  · rw [Workspace.seat?_bind hy, if_neg]
    rintro rfl
    exact hyys hz

/-- The slot behind a block. -/
def Behind (x y : String) (slot : Slot) : Prop := y = x ∧ slot = none

mutual

/-- **An entry is built with all that is inside.** -/
theorem Ready.ends_grow (ha : a.AloofAt muted) : ∀ (e : Entry) {s : Scene σ}, e.Single →
    (∀ id ∈ e.ids, given id) → Ready muted given s.workspace →
    Ends (grow a e) s (fun k t => ∃ x xs, k = .text x ∧ Sprouts s.workspace t.workspace e x xs)
      fun _ _ => True
  | .fault _, _, _, _, _ => Ends.throw trivial
  | .block h inputs, s, hsingle, hids, hs => by
    unfold grow
    unfold Entry.ids at hids
    unfold Entry.Single at hsingle
    refine Ends.bind ((ends_place ha hs (hids _ List.mem_cons_self)).mono ?_ fun _ _ _ => trivial)
    rintro _ t ⟨x, b, rfl, hgrown, hb, hcore, hmakes⟩
    have hchild (slot : Slot) : t.workspace.child? x slot = none := by
      rw [Workspace.child?, hb]
      exact Workspace.child?_of_core hcore slot
    refine Ends.bind ((ends_growInputs ha inputs hsingle.2
      (fun id hid => hids id (List.mem_cons_of_mem _ hid)) hsingle.1 (hs.grown hgrown)
      (by rw [hb]; rfl) fun slot _ => hchild slot).mono ?_ fun _ _ _ => trivial)
    rintro _ u ⟨xs, hgrown', hbuilt⟩
    have hx : (t.workspace.block? x).isSome := by rw [hb]; rfl
    refine Ends.pure ⟨x, xs, rfl, hgrown.trans hgrown' ?_, ⟨⟨b, ?_, ?_⟩, hbuilt⟩, ?_, ?_⟩
    · rintro y slot hy ⟨rfl, -⟩
      exact hgrown.new List.mem_cons_self hy
    · rw [hgrown'.core? x hx, Workspace.core?, hb, Option.map_some, hcore]
    · exact hgrown'.later.vocabulary ▸ hmakes
    · rw [hgrown'.seat? x hx, Workspace.seat?, hb]
      exact Workspace.seat?_of_core hcore
    · rw [hgrown'.child? x none hx, hchild]
      rintro ⟨-, t, ht, -⟩
      cases ht

/-- What is plugged into a block is built, and plugged in. -/
theorem Ready.ends_growInputs (ha : a.AloofAt muted) : ∀ (inputs : List (Key × Option Entry))
    {s : Scene σ} {x : String}, SingleInputs inputs → (∀ id ∈ idsOfInputs inputs, given id) →
    (inputs.map (·.1)).Nodup →
    Ready muted given s.workspace → (s.workspace.block? x).isSome →
    (∀ slot, Sockets x (inputs.map (·.1)) x slot → s.workspace.child? x slot = none) →
    Ends (growInputs a (.text x) inputs) s (fun _ t => ∃ xs,
      s.workspace.Grown t.workspace xs (Sockets x (inputs.map (·.1))) ∧
      BuiltInputs t.workspace x inputs xs) fun _ _ => True
  | [], _, _, _, _, _, hs, _, _ => Ends.pure ⟨[], hs.sound.grown, rfl⟩
  | (socket, e) :: rest, s, x, hsingle, hids, hnodup, hs, hx, hvacant => by
    unfold growInputs
    unfold idsOfInputs at hids
    unfold SingleInputs at hsingle
    obtain ⟨hnew, hnodup⟩ := List.nodup_cons.mp hnodup
    have hfirst : [socket] ⊆ socket :: rest.map (·.1) := List.cons_subset_cons _ (List.nil_subset _)
    have hrest := List.subset_cons_self socket (rest.map (·.1))
    refine Ends.bind ((ends_growInput ha e hsingle.1 (fun id hid => hids id
      (List.mem_append_left _ hid)) hs hx fun slot hslot => hvacant slot (hslot.mono hfirst)).mono
      ?_ fun _ _ _ => trivial)
    rintro _ t ⟨ys, hgrown, hbuilt⟩
    have hx' := hgrown.isSome_iff.mpr (.inl hx)
    refine (ends_growInputs ha rest hsingle.2 (fun id hid => hids id (List.mem_append_right _ hid))
      hnodup (hs.grown hgrown) hx' fun slot hslot => ?_).mono ?_ fun _ _ _ => trivial
    · -- the sockets to come are not the one that was filled
      rw [hgrown.child? x slot hx, hvacant slot (hslot.mono hrest)]
      rintro ⟨-, t, rfl, ht⟩
      obtain ⟨-, t', ht', hmem⟩ := hslot
      cases ht'
      exact hnew (List.mem_singleton.mp ht ▸ hmem)
    · rintro _ u ⟨zs, hgrown', hbuilt'⟩
      refine ⟨ys ++ zs, (hgrown.mono fun _ _ _ h => h.mono hfirst).trans hgrown' fun _ _ _ h =>
        h.mono hrest, ys, zs, rfl, ?_, hbuilt'⟩
      exact hbuilt.agrees (agrees_of_grown hgrown' fun y hy => hgrown.isSome_iff.mpr (.inr hy))

/-- What is plugged into one socket is built, and plugged in. -/
theorem Ready.ends_growInput (ha : a.AloofAt muted) : ∀ (e : Option Entry) {s : Scene σ} {x : String}
    {socket : Key}, SingleInput e → (∀ id ∈ idsOfInput e, given id) →
    Ready muted given s.workspace → (s.workspace.block? x).isSome →
    (∀ slot, Sockets x [socket] x slot → s.workspace.child? x slot = none) →
    Ends (growInput a (.text x) socket e) s (fun _ t => ∃ xs,
      s.workspace.Grown t.workspace xs (Sockets x [socket]) ∧
      BuiltInput t.workspace x socket e xs) fun _ _ => True
  | none, _, _, _, _, _, _, _, _ => Ends.throw trivial
  | some e, s, x, socket, hsingle, hids, hs, hx, hvacant => by
    unfold growInput
    unfold idsOfInput at hids
    unfold SingleInput at hsingle
    refine Ends.bind ((ends_grow ha e hsingle hids hs).mono ?_ fun _ _ _ => trivial)
    rintro _ t ⟨y, ys, rfl, hsprouts⟩
    have hvacant' (slot : Slot) (hslot : Sockets x [socket] x slot) :
        t.workspace.child? x slot = none :=
      (hsprouts.grown.child? x slot hx id).trans (hvacant slot hslot)
    refine (ends_connectValue ha (hs.grown hsprouts.grown) hsprouts.loose fun t' ht' =>
      hvacant' _ ⟨rfl, t', rfl, List.mem_singleton.mpr ht'.symm⟩).mono ?_ fun _ _ _ => trivial
    rintro _ u ⟨t', rfl, hconnects, hu⟩
    have hsocket : Sockets x [.text t'] x (some t') := ⟨rfl, t', rfl, List.mem_singleton_self _⟩
    obtain ⟨hgrown, hseat, hbuilt⟩ := hsprouts.bind hconnects (hvacant' _ hsocket) hsocket
    rw [hu]
    exact ⟨y :: ys, hgrown, t', y, ys, rfl, rfl, hseat, hbuilt⟩

end

section

variable (ha : a.AloofAt muted)

include ha

/-- Entries that follow a block are built, each behind the one before it. -/
theorem Ready.ends_growAfter {es : List Entry} {x : String} (hsingle : ∀ e ∈ es, e.Single)
    (hids : ∀ id ∈ es.flatMap Entry.ids, given id) (hs : Ready muted given s.workspace)
    (hx : (s.workspace.block? x).isSome) (hvacant : s.workspace.child? x none = none) :
    Ends (growAfter a (.text x) es) s (fun _ t => ∃ xs,
      s.workspace.Grown t.workspace xs (Behind x) ∧
      BuiltAfter t.workspace x es xs) fun _ _ => True := by
  -- along the chain: nothing follows the block that was built last
  induction es generalizing s x with
  | nil => exact Ends.pure ⟨[], hs.sound.grown, rfl⟩
  | cons e es ih =>
      rw [List.flatMap_cons] at hids
      refine Ends.bind ((ends_grow ha e (hsingle e List.mem_cons_self)
        (fun id hid => hids id (List.mem_append_left _ hid)) hs).mono ?_ fun _ _ _ => trivial)
      rintro _ t ⟨y, ys, rfl, hsprouts⟩
      have hvacant' := (hsprouts.grown.child? x none hx id).trans hvacant
      refine Ends.bind ((ends_connectNext ha (hs.grown hsprouts.grown) hsprouts.loose hvacant').mono
        ?_ fun _ _ _ => trivial)
      rintro _ u ⟨hconnects, hu⟩
      have hbehind : Behind x x none := ⟨rfl, rfl⟩
      obtain ⟨hgrown, hseat, hbuilt⟩ := hsprouts.bind hconnects hvacant' hbehind
      rw [← hu] at hgrown hseat hbuilt
      have hpresent : ∀ z ∈ y :: ys, (u.workspace.block? z).isSome := fun z hz =>
        hgrown.isSome_iff.mpr (.inr hz)
      have hxy : ¬ x = y := fun e => hgrown.new List.mem_cons_self (e ▸ hx)
      have hlast : u.workspace.child? y none = none := by
        rw [hu, Workspace.child?_bind (hsprouts.grown.isSome_iff.mpr (.inl hx)), if_neg,
          hsprouts.last]
        exact fun h => hxy h.1
      refine (ih (fun e he => hsingle e (List.mem_cons_of_mem _ he))
        (fun id hid => hids id (List.mem_append_right _ hid)) (hs.grown hgrown)
        (hpresent y List.mem_cons_self) hlast).mono ?_ fun _ _ _ => trivial
      rintro _ v ⟨zs, hgrown', hbuilt'⟩
      have hagrees := agrees_of_grown hgrown' hpresent
      refine ⟨y :: ys ++ zs, hgrown.trans hgrown' ?_, y, ys, zs, rfl, ?_, ?_, hbuilt'⟩
      · rintro z slot hz ⟨rfl, -⟩
        exact absurd hz (hgrown.new List.mem_cons_self)
      · exact (hagrees.seat? y List.mem_cons_self).trans hseat
      · exact hbuilt.agrees (hagrees.core? y List.mem_cons_self)
          (hagrees.of_subset (List.subset_cons_self y ys))

/-- A chain is built as a whole. -/
theorem Ready.ends_growStrand {strand : Strand} (hsingle : strand.Single)
    (hids : ∀ id ∈ strand.ids, given id) (hs : Ready muted given s.workspace) :
    Ends (growStrand a strand) s (fun k t => ∃ x xs, k = .text x ∧
      s.workspace.Grown t.workspace (x :: xs) (fun _ _ => False) ∧
      strand.Built t.workspace x xs) fun _ _ => True := by
  unfold Strand.ids at hids
  refine Ends.bind ((ends_grow ha strand.top hsingle.1
    (fun id hid => hids id (List.mem_append_left _ hid)) hs).mono ?_ fun _ _ _ => trivial)
  rintro _ t ⟨x, ys, rfl, hsprouts⟩
  have hpresent : ∀ z ∈ x :: ys, (t.workspace.block? z).isSome := fun z hz =>
    hsprouts.grown.isSome_iff.mpr (.inr hz)
  refine Ends.bind ((ends_growAfter ha hsingle.2 (fun id hid => hids id
    (List.mem_append_right _ hid)) (hs.grown hsprouts.grown) (hpresent x List.mem_cons_self)
    hsprouts.last).mono ?_ fun _ _ _ => trivial)
  rintro _ u ⟨zs, hgrown, hbuilt⟩
  have hagrees := agrees_of_grown hgrown hpresent
  refine Ends.pure ⟨x, ys ++ zs, rfl, hsprouts.grown.trans hgrown ?_, ys, zs, rfl, ?_, ?_, hbuilt⟩
  · rintro z slot hz ⟨rfl, -⟩
    exact hsprouts.grown.new List.mem_cons_self hz
  · exact (hagrees.seat? x List.mem_cons_self).trans hsprouts.loose
  · exact hsprouts.built.agrees (hagrees.core? x List.mem_cons_self)
      (hagrees.of_subset (List.subset_cons_self x ys))

/-- All chains are built. -/
theorem Ready.ends_growAll {strands : List Strand} (hsingle : ∀ strand ∈ strands, strand.Single)
    (hids : ∀ id ∈ strands.flatMap Strand.ids, given id) (hs : Ready muted given s.workspace) :
    Ends (growAll a strands) s (fun ks t => ∃ tops xs, ks = tops.map .text ∧
      s.workspace.Grown t.workspace xs (fun _ _ => False) ∧
      BuiltAll t.workspace strands tops xs) fun _ _ => True := by
  induction strands generalizing s with
  | nil => exact Ends.pure ⟨[], [], rfl, hs.sound.grown, rfl, rfl⟩
  | cons strand strands ih =>
      rw [List.flatMap_cons] at hids
      refine Ends.bind ((ends_growStrand ha (hsingle strand List.mem_cons_self)
        (fun id hid => hids id (List.mem_append_left _ hid)) hs).mono ?_ fun _ _ _ => trivial)
      rintro _ t ⟨x, ys, rfl, hgrown, hbuilt⟩
      refine Ends.bind ((ih (fun strand hm => hsingle strand (List.mem_cons_of_mem _ hm))
        (fun id hid => hids id (List.mem_append_right _ hid)) (hs.grown hgrown)).mono ?_
        fun _ _ _ => trivial)
      rintro _ u ⟨tops, zs, rfl, hgrown', hall⟩
      refine Ends.pure ⟨x :: tops, x :: ys ++ zs, rfl, hgrown.trans hgrown' fun _ _ _ h => h, x,
        tops, ys, zs, rfl, rfl, ?_, hall⟩
      exact hbuilt.agrees (agrees_of_grown hgrown' fun z hz => hgrown.isSome_iff.mpr (.inr hz))

/-- What is new once a document is rebuilt are the blocks of all entries of its outline, one for
each, every one of them where the outline has it. -/
theorem Ready.ends_rebuild {document : Value} (hkeyed : document.Keyed) {strands : List Strand}
    (ho : outline document = .ok strands)
    (hs : Ready muted (· ∈ strands.flatMap Strand.ids) s.workspace) :
    Ends (rebuild a document) s (fun ks t => ∃ tops xs, ks = tops.map .text ∧
      s.workspace.Grown t.workspace xs (fun _ _ => False) ∧
      BuiltAll t.workspace strands tops xs) fun _ _ => True := by
  unfold rebuild
  rw [ho]
  exact Act.ends_mapError ((ends_growAll ha (single_outline hkeyed ho) (fun _ hid => hid)
    hs).mono (fun _ _ ht => ht) fun _ _ _ => trivial)

end

/-- Whether the blocks of a workspace are those of all entries of a document, one for each, every
one of them where the document has it, and which of them are at the top. -/
def Renders (document : Value) (w : Workspace) (tops : List String) : Prop :=
  ∃ strands xs, outline document = .ok strands ∧ w.entries.map (·.1) = xs.map .text ∧
    List.Forall₂ Gives (strands.flatMap Strand.ids) xs ∧ BuiltAll w strands tops xs

/-- Where there are no blocks, a document is rebuilt as a whole. -/
theorem Ready.ends_rebuild_empty (ha : a.AloofAt muted) {document : Value}
    (hkeyed : document.Keyed) (hs : Ready muted (fun id => ∃ strands,
      outline document = .ok strands ∧ id ∈ strands.flatMap Strand.ids) s.workspace)
    (hempty : s.workspace.entries = []) :
    Ends (rebuild a document) s (fun ks t => ∃ tops, ks = tops.map .text ∧
      Renders document t.workspace tops) fun _ _ => True := by
  cases ho : outline document with
  | error e =>
      unfold rebuild
      rw [ho]
      exact Ends.throw trivial
  | ok strands =>
      have hready : Ready muted (· ∈ strands.flatMap Strand.ids) s.workspace :=
        { hs with admits := fun id hid => hs.admits id ⟨strands, ho, hid⟩ }
      refine (hready.ends_rebuild ha hkeyed ho).mono ?_ fun _ _ _ => trivial
      rintro _ t ⟨tops, xs, rfl, hgrown, hall⟩
      have hkeys := hgrown.keys
      rw [hempty, List.map_nil, List.nil_append] at hkeys
      exact ⟨tops, rfl, strands, xs, ho, hkeys, hall.ids, hall⟩

/-- **A document is rebuilt as a whole.**  Where rebuilding it in a new workspace does not fail, there
is one block for each entry of the outline, where the outline has it, and no other block. -/
theorem rebuilds_whole {v : Vocabulary} (hv : v.Worded) (ha : a.Aloof) {document : Value}
    (hkeyed : document.Keyed) {created : Nat} (hs : s.workspace = Workspace.new v created)
    (hids : ∀ strands, outline document = .ok strands →
      ∀ id ∈ strands.flatMap Strand.ids, s.workspace.Admits id) {ks : List Key} {t : Scene σ}
    (ht : rebuild a document s = .ok ks t) :
    ∃ tops, ks = tops.map .text ∧ Renders document t.workspace tops := by
  have hready : Ready s.workspace.muted (fun id => ∃ strands,
      outline document = .ok strands ∧ id ∈ strands.flatMap Strand.ids) s.workspace := by
    refine ⟨?_, ?_, rfl, fun id ⟨strands, ho, hid⟩ => hids strands ho id hid⟩
    · rw [hs]
      exact Workspace.sound_new hv created
    · rw [hs]
      exact fun _ _ => Table.find?_eq _ _
  have hends := hready.ends_rebuild_empty (ha.aloofAt _) hkeyed (by rw [hs]; rfl)
  rwa [Ends.of_ok ht] at hends

/-- Entries that agree in the parts of a block describe the same block. -/
theorem entryOf_congr (position : Value) {es fs : List (Key × Value)}
    (h : ∀ k ∈ partNames, Entries.get? es (.text k) = Entries.get? fs (.text k)) :
    entryOf position (.dict es) = entryOf position (.dict fs) := by
  rw [entryOf, entryOf, fieldsOf, fieldsOf, inputsIn_eq, inputsIn_eq, h "fields" (by decide),
    h "inputs" (by decide), h "id" (by decide)]
  unfold headOf
  rw [h "type" (by decide), h "id" (by decide), h "enabled" (by decide)]

/-- A link of an entry is read where the entry begins or continues a chain only: what is built from
the entry itself, as from one that is plugged into a block, is the same without the link. -/
theorem entryOf_erase_next (position : Value) (es : List (Key × Value)) :
    entryOf position (.dict (Entries.erase es (.text "next"))) = entryOf position (.dict es) :=
  entryOf_congr position fun k hk => Entries.get?_erase_text es fun e => by
    rw [e] at hk
    exact absurd hk (by decide)

end Snapshot

/-! ### Loading -/

/-- A workspace without blocks is built from a text as a whole. -/
theorem Archive.ends_restore {text : String} (ha : a.AloofAt muted)
    (hs : Snapshot.Ready muted (Gives text) s.workspace) (hempty : s.workspace.entries = []) :
    Ends (restore a text) s (fun _ t => ∃ document tops, Json.read text = .ok document ∧
      Snapshot.Renders document t.workspace tops) fun _ _ => True := by
  unfold restore
  split
  · exact Ends.throw trivial
  · rename_i document hread
    have hready : Snapshot.Ready muted (fun id => ∃ strands, Snapshot.outline document = .ok strands ∧
        id ∈ strands.flatMap Strand.ids) s.workspace :=
      { hs with admits := fun id ⟨strands, ho, hid⟩ =>
          hs.admits id ⟨document, strands, hread, ho, hid⟩ }
    refine Ends.bind ((hready.ends_rebuild_empty ha ((Json.reads_read text).2 document hread)
      hempty).mono ?_ fun _ _ _ => trivial)
    rintro _ t ⟨tops, -, hrenders⟩
    exact Ends.pure ⟨document, tops, hread, hrenders⟩

/-- **What is loaded is loaded as a whole.**  Where loading answers that there was a workspace, the
blocks that are there are those of all entries of the text that was found. -/
theorem History.loads_whole {a : Audience σ} {v : Vocabulary} {g : Workspace} (ha : a.Tame)
    (ho : a.Open) (hv : v.Worded) (hg : History a v g) {archive : Archive}
    {s u : Scene (List Change)} (hs : s.workspace = g)
    (hids : ∀ text, archive.Stored s.host text → ∀ id, Archive.Gives text id → g.Admits id)
    (hu : archive.load .journal s = .ok true u) :
    ∃ text document tops, archive.Stored s.host text ∧ Json.read text = .ok document ∧
      Snapshot.Renders document u.workspace tops := by
  subst hs
  have hsteady := hg.steady ha ho hv
  by_cases hf : ∃ text, archive.Stored s.host text
  swap
  · have habsent := Archive.ends_load_absent hf
    rw [Ends.of_ok hu] at habsent
    exact nomatch habsent.1
  obtain ⟨text, host, hget⟩ := hf
  have hids' := hids text ⟨host, hget⟩
  have hloaded := Archive.ends_load_text hsteady hget hids'
  rw [Ends.of_ok hu] at hloaded
  cases hloaded with
  | @restored w host₁ t _ _ hw hrestored hut =>
      have hne : w.muted ≠ 0 := by rw [hw.muted]; exact Nat.succ_ne_zero _
      have hready : Snapshot.Ready w.muted (Archive.Gives text) w :=
        ⟨hw.sound hsteady.sound, hw.minted, rfl, fun id hid => (hids' id hid).mono hw.created⟩
      have hends := Archive.ends_restore (s := { s with workspace := w, host := host₁ })
        (Audience.journal.aloofAt_of_ne_zero hne) hready hw.entries_eq
      rw [Ends.of_ok hrestored] at hends
      obtain ⟨document, tops, hread, strands, xs, ho, hkeys, hxs, hall⟩ := hends
      -- how often changes are kept from the audience does not matter for what is built
      rw [hut]
      refine ⟨text, document, tops, ⟨host, hget⟩, hread, strands, xs, ho, hkeys, hxs,
        hall.agrees ⟨rfl, fun _ _ => rfl, fun _ _ => rfl⟩⟩

end Blockwork
