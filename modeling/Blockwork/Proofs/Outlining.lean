import Blockwork.Proofs.Tops
import Blockwork.Snapshot.Encode
import Blockwork.Snapshot.Outline

/-!
# Outlines of workspaces

The document of a workspace, read as an outline, shows the workspace: for each chain the entry of
its first block and those of the blocks that follow, each with the blocks plugged into it
(`Workspace.Shows`, `Workspace.ShowsStrand`).  The document is there, and it nests three levels
deeper with each value that is plugged into another one (`Workspace.Storable.exists_outline`).
-/

namespace Blockwork

open Forest (Hangs Lineage)
open Snapshot (Entry Strand)

/-! ### Vocabularies of workspaces that can be stored -/

/-- What a vocabulary needs for its workspaces to be stored and read back: arguments of one type
have different texts as names, and no blocks both give a value and are followed by others. -/
structure Vocabulary.Storable (v : Vocabulary) : Prop where
  worded : v.Worded
  distinct : ∀ d ∈ v.declarations, (d.sockets.map (·.name)).Nodup
  apart : ∀ d ∈ v.declarations, d.isValue = true → d.next = false

theorem Vocabulary.storable_stock : Vocabulary.stock.Storable where
  worded := Vocabulary.worded_stock
  distinct := by decide
  apart := by decide

theorem Vocabulary.Storable.orStock {v : Vocabulary} (h : v.Storable) : v.orStock.Storable := by
  change (if v.declarations.isEmpty then Vocabulary.stock else v).Storable
  split
  · exact Vocabulary.storable_stock
  · exact h

/-- Whether the arguments of a type have names that tell them apart. -/
def Declaration.Articulate (d : Declaration) : Prop :=
  (d.sockets.map fun s => s.name.key?.map (·.name)).Nodup

theorem forall₂_of_mapM {ε α β : Type} {f : α → Except ε β} {as : List α} {bs : List β}
    (h : as.mapM f = .ok bs) : List.Forall₂ (fun a b => f a = .ok b) as bs := by
  induction as generalizing bs with
  | nil =>
      cases h
      exact .nil
  | cons a as ih =>
      rw [List.mapM_cons] at h
      obtain ⟨b, hb, h⟩ := exists_of_bind_ok h
      obtain ⟨bs', hbs, h⟩ := exists_of_bind_ok h
      cases h
      exact .cons hb (ih hbs)

theorem Value.key?_of_toKey {v : Value} {k : Key} (h : v.toKey = .ok k) : v.key? = some k := by
  unfold toKey at h
  split at h
  · cases h
    assumption
  · cases h

/-- Whoever declares a type declares each of its arguments, and is made to give them names that tell
them apart. -/
theorem Declaration.arguments_of_ofValue {v : Value} {d : Declaration}
    (h : Declaration.ofValue v = .ok d) :
    (∀ s ∈ d.sockets, ∃ u, Socket.ofValue u = .ok s) ∧ d.Articulate := by
  cases v with
  | dict es =>
      unfold Declaration.ofValue at h
      dsimp only at h
      split at h
      · cases h
      obtain ⟨colour, -, h⟩ := exists_of_bind_ok h
      obtain ⟨sockets, hargs, h⟩ := exists_of_bind_ok h
      obtain ⟨names, hnames, h⟩ := exists_of_bind_ok h
      split at h
      · cases h
      rename_i hnd
      obtain ⟨parts, -, hargs⟩ := exists_of_bind_ok hargs
      have hread (s : Socket) (hs : s ∈ sockets) : ∃ u, Socket.ofValue u = .ok s := by
        obtain ⟨u, -, hu⟩ := exists_of_mem_forall₂ (forall₂_of_mapM hargs) hs
        exact ⟨u, hu⟩
      have hnd : (names.map (·.name)).Nodup := by simpa using hnd
      have hsockets : (sockets.map fun s => s.name.key?.map (·.name)).Nodup := by
        rw [← map_eq_of_forall₂ (g := fun k => some k.name) (forall₂_of_mapM hnames)
          fun s k hk => by rw [Value.key?_of_toKey hk]; rfl]
        exact (List.map_map (g := some) ▸ hnd.map fun _ _ => Option.some.inj :)
      split at h
      · split at h
        · split at h
          · cases h
          · obtain ⟨output, -, h⟩ := exists_of_bind_ok h
            cases h
            exact ⟨hread, hsockets⟩
        · cases h
      · cases h
  | _ => cases h

theorem Declaration.articulate_of_ofValue {v : Value} {d : Declaration}
    (h : Declaration.ofValue v = .ok d) : d.Articulate := (arguments_of_ofValue h).2

/-- So these names are different. -/
theorem Declaration.Articulate.distinct {d : Declaration} (h : d.Articulate) :
    (d.sockets.map (·.name)).Nodup :=
  List.Nodup.of_map (fun v : Value => v.key?.map (·.name)) (by rw [List.map_map]; exact h)

namespace Workspace

variable {w : Workspace} {x y p : String} {b : Block} {d : Declaration}

/-! ### What is plugged into a block -/

/-- The blocks plugged into a block with their sockets, in the order of the declaration. -/
def plugged (w : Workspace) (x : String) (d : Declaration) : List (String × String) :=
  d.inputs.filterMap fun s =>
    s.name.text?.bind fun t => (w.child? x (some t)).map (t, ·)

theorem child?_of_mem_plugged {s : String} (h : (s, y) ∈ w.plugged x d) :
    w.child? x (some s) = some y := by
  obtain ⟨socket, -, he⟩ := List.mem_filterMap.mp h
  obtain ⟨t, -, he⟩ := Option.bind_eq_some_iff.mp he
  obtain ⟨z, hz, he⟩ := Option.map_eq_some_iff.mp he
  cases he
  exact hz

/-- Whatever is in a socket is among the blocks plugged in. -/
theorem Sound.mem_plugged (h : w.Sound) (hd : w.type? x = some d) {s : String} :
    (s, y) ∈ w.plugged x d ↔ w.child? x (some s) = some y := by
  refine ⟨child?_of_mem_plugged, fun hy => ?_⟩
  obtain ⟨d', e, hd', -, socket, hsocket, -⟩ := h.suited _ _ _ ((h.linked ..).mp hy)
  obtain rfl := Option.some.inj (hd.symm.trans hd')
  obtain ⟨t, ht, hname⟩ := Declaration.input?_eq_some h.worded (mem_of_type? hd) hsocket
  cases ht
  obtain ⟨hfind, hinput⟩ := Option.filter_eq_some_iff.mp hsocket
  have hmem := List.mem_of_find?_eq_some (show d.sockets.find? _ = some socket from hfind)
  refine List.mem_filterMap.mpr ⟨socket, List.mem_filter.mpr ⟨hmem, hinput⟩, ?_⟩
  rw [hname, Value.text?_text, Option.bind_some, hy]
  rfl

theorem nodup_plugged (hd : (d.sockets.map (·.name)).Nodup) :
    ((w.plugged x d).map (·.1)).Nodup := by
  have hinputs : d.inputs.Pairwise (·.name ≠ ·.name) :=
    (List.pairwise_map.mp hd).sublist List.filter_sublist
  refine List.pairwise_map.mpr (List.pairwise_filterMap.mpr (hinputs.imp ?_))
  intro s t hst a ha a' ha' he
  obtain ⟨n, hn, ha⟩ := Option.bind_eq_some_iff.mp ha
  obtain ⟨n', hn', ha'⟩ := Option.bind_eq_some_iff.mp ha'
  obtain ⟨z, -, rfl⟩ := Option.map_eq_some_iff.mp ha
  obtain ⟨z', -, rfl⟩ := Option.map_eq_some_iff.mp ha'
  rw [Value.text?_eq_some] at hn hn'
  obtain rfl : n = n' := he
  exact hst (hn.trans hn'.symm)

theorem Sound.plugs_eq (h : w.Sound) (hb : w.block? x = some b) (hd : w.type? x = some d) :
    Snapshot.plugs b d = (w.plugged x d).map fun p => (.text p.1, .text p.2) := by
  unfold Snapshot.plugs Workspace.plugged
  rw [List.map_filterMap]
  refine List.filterMap_congr fun s hs => ?_
  obtain ⟨t, ht⟩ := h.worded d (mem_of_type? hd) s (List.mem_of_mem_filter hs)
  have hchild : w.child? x (some t) = b.child? (some t) := by
    rw [child?, hb, Option.bind_some]
  rw [ht, Value.text?_text, Option.bind_some, hchild]
  change ((Entries.get? b.inputs (.text t)).bind fun link =>
    if link = .null then none else some (Key.text t, link)) = _
  rw [(h.shaped x b hb).get?_inputs]
  cases b.child? (some t) with
  | none => rfl
  | some z => rfl

/-! ### What an outline shows -/

/-- Whether an entry is that of a block at a position, with no more than `n` values plugged into one
another. -/
def Shows (w : Workspace) : Nat → Value → String → Entry → Prop
  | 0, _, _, _ => False
  | n + 1, position, x, e => ∃ b d inputs, w.block? x = some b ∧ w.declarationOf b = .ok d ∧
      e = .block ⟨some b.type, .text x, position, b.fields, !b.isEnabled⟩ inputs ∧
      List.Forall₂ (fun p i => ∃ e', i = (.text p.1, some e') ∧ Shows w n Snapshot.origin p.2 e')
        (w.plugged x d) inputs

/-- Whether a strand is that of the chain of a block at the top. -/
def ShowsStrand (w : Workspace) (n : Nat) (top : Block) (s : Strand) : Prop :=
  ∃ x m, top.id = .text x ∧ Lineage w.next? x (x :: m) ∧
    w.Shows n (.list top.position) x s.top ∧
    List.Forall₂ (w.Shows n Snapshot.origin) m s.following

end Workspace

/-! ### Entries of a document -/

theorem Entries.get?_append {α β : Type} [BEq α] (es fs : List (α × β)) (k : α) :
    get? (es ++ fs) k = (get? es k).or (get? fs k) := by
  rw [get?, List.find?_append, Option.map_or]
  rfl

theorem Entries.get?_cons {α β : Type} [BEq α] (e : α × β) (es : List (α × β)) (k : α) :
    get? (e :: es) k = if e.1 == k then some e.2 else get? es k := by
  unfold get?
  rw [List.find?_cons]
  split
  · rename_i h
    rw [if_pos h]
    rfl
  · rename_i h
    rw [if_neg (by rw [h]; exact Bool.false_ne_true)]

theorem Entries.get?_erase_text (es : List (Key × Value)) {j k : String} (h : j ≠ k) :
    get? (erase es (.text k)) (.text j) = get? es (.text j) := by
  rw [get?_erase, if_neg]
  exact fun e => h (Key.text.inj (Key.beq_text_iff.mp e)).symm

theorem Entries.get?_put_text (es : List (Key × Value)) (v : Value) (j k : String) :
    get? (put es (.text k) v) (.text j) = if j = k then some v else get? es (.text j) := by
  rw [get?_put]
  by_cases h : j = k
  · rw [if_pos h, if_pos (by rw [h, Key.beq_text_iff])]
  · rw [if_neg h, if_neg fun e => h (Key.text.inj (Key.beq_text_iff.mp e)).symm]

namespace Snapshot

/-- What is written of a block and of its inputs. -/
def parts (b : Block) (inputs : List (Key × Value)) : List (String × Value) :=
  [("type", b.type), ("id", b.id)] ++
    (if b.isEnabled then [] else [("enabled", .bool false)]) ++
    (if b.fields.isEmpty then [] else [("fields", .dict b.fields)]) ++
    (if inputs.isEmpty then [] else [("inputs", .dict inputs)])

/-- What is written of a block that is plugged into a socket. -/
def inputAt (w : Workspace) (n : Nat) (p : Key × Value) : Except Error (Key × Value) := do
  match w.find? (← p.2.toKey) with
  | none => throw (.failure .missingKey)
  | some c => return (p.1, .record [("block", .record (← ofBlock w n c))])

theorem ofBlock_succ (w : Workspace) (n : Nat) (b : Block) : ofBlock w (n + 1) b = (do
    let d ← w.declarationOf b
    let inputs ← (plugs b d).mapM (inputAt w n)
    return parts b inputs) := rfl

theorem inputAt_eq {w : Workspace} {n : Nat} {p : Key × Value} {k : Key} {c : Block}
    {es : List (String × Value)} (hp : p.2.toKey = .ok k) (hc : w.find? k = some c)
    (hes : ofBlock w n c = .ok es) :
    inputAt w n p = .ok (p.1, .record [("block", .record es)]) := by
  simp only [inputAt, hp, bind, Except.bind, hc, hes]
  rfl

theorem exists_of_inputAt {w : Workspace} {n : Nat} {p i : Key × Value} (h : inputAt w n p = .ok i) :
    ∃ k c es, p.2.toKey = .ok k ∧ w.find? k = some c ∧ ofBlock w n c = .ok es ∧
      i = (p.1, .record [("block", .record es)]) := by
  obtain ⟨k, hk, h⟩ := exists_of_bind_ok h
  split at h
  · cases h
  rename_i c hc
  obtain ⟨es, hes, h⟩ := exists_of_bind_ok h
  exact ⟨k, c, es, hk, hc, hes, (Except.ok.inj h).symm⟩

/-- What is written of the blocks that follow the first one of a chain. -/
def itemsOf (w : Workspace) (chain : List (Key × Block)) : Except Error (List Value) :=
  chain.mapM fun e => do return Value.record (← ofBlock w nestingLimit e.2)

/-- What is written of a chain. -/
def chained (entry : List (String × Value)) (x y : Value) (items : List Value) : Value :=
  .record (entry ++ [("x", x), ("y", y)] ++
    (if items.isEmpty then [] else [("next", .record [("blocks", .list items)])]))

theorem ofChain_eq (w : Workspace) (top : Block) : ofChain w top = (do
    let chain ← w.chain (← top.id.toKey)
    let entry ← ofBlock w nestingLimit top
    let x ← Workspace.coordinate top 0
    let y ← Workspace.coordinate top 1
    let items ← itemsOf w chain.tail
    return chained entry x y items) := rfl

/-- The keys of what is written of a block. -/
def partNames : List String := ["type", "id", "enabled", "fields", "inputs"]

/-- The entries of a record. -/
def keyed (es : List (String × Value)) : List (Key × Value) := es.map fun e => (.text e.1, e.2)

theorem record_eq (es : List (String × Value)) : Value.record es = .dict (keyed es) := rfl

theorem get?_keyed (es : List (String × Value)) (k : String) :
    Entries.get? (keyed es) (.text k) = Entries.get? es k := by
  induction es with
  | nil => rfl
  | cons e es ih =>
      rw [keyed, List.map_cons, ← keyed, Entries.get?_cons, Entries.get?_cons, ih, Key.beq_text]
      by_cases h : e.1 = k
      · simp [h]
      · simp [h]

theorem get?_optional {c : Bool} (j k : String) (v : Value) :
    Entries.get? (if c then [] else [(j, v)]) k =
      if k = j then (if c then none else some v) else none := by
  cases c with
  | true => simp [Entries.get?]
  | false =>
      by_cases h : k = j
      · simp [Entries.get?, h]
      · simp [Entries.get?, h, Ne.symm h]

section

variable (b : Block) (inputs : List (Key × Value)) {extra : List (String × Value)}

theorem get?_parts (k : String) : Entries.get? (parts b inputs) k =
    if k = "type" then some b.type else if k = "id" then some b.id
    else if k = "enabled" then (if b.isEnabled then none else some (.bool false))
    else if k = "fields" then (if b.fields.isEmpty then none else some (.dict b.fields))
    else if k = "inputs" then (if inputs.isEmpty then none else some (.dict inputs)) else none := by
  unfold parts
  rw [Entries.get?_append, Entries.get?_append, Entries.get?_append, get?_optional, get?_optional,
    get?_optional, Entries.get?_cons, Entries.get?_cons]
  by_cases ht : k = "type"
  · simp [ht]
  by_cases hi : k = "id"
  · simp [hi]
  have hnone : Entries.get? ([] : List (String × Value)) k = none := rfl
  simp only [ht, hi, hnone, beq_iff_eq, Ne.symm ht, Ne.symm hi, if_false, Option.none_or]
  by_cases he : k = "enabled"
  · simp [he]
  by_cases hf : k = "fields"
  · simp [hf]
  simp only [he, hf, if_false, Option.none_or]

theorem inputsIn_eq (es : List (Key × Value)) :
    inputsIn es = ((Entries.get? es (.text "inputs")).map inputsOf).getD (some []) := by
  induction es with
  | nil => rfl
  | cons e es ih =>
      rw [inputsIn, Entries.get?_cons, ih]
      unfold isNamed
      split <;> rfl

/-- What is written of a block describes the block. -/
theorem entryOf_parts (hextra : ∀ k ∈ partNames, Entries.get? extra k = none) (position : Value) :
    entryOf position (.record (parts b inputs ++ extra)) =
      .block ⟨some b.type, b.id, position, b.fields, !b.isEnabled⟩ (plugsIn inputs) := by
  have lookup (k : String) (hk : k ∈ partNames) :
      Entries.get? (keyed (parts b inputs ++ extra)) (.text k) =
        Entries.get? (parts b inputs) k := by
    rw [get?_keyed, Entries.get?_append, hextra k hk, Option.or_none]
  have hfields : fieldsOf (keyed (parts b inputs ++ extra)) =
      some b.fields := by
    rw [fieldsOf, lookup "fields" (by decide), get?_parts]
    cases hb : b.fields with
    | nil => simp [Value.isTruthy]
    | cons f fs => simp
  have hinputs : inputsIn (keyed (parts b inputs ++ extra)) =
      some (plugsIn inputs) := by
    rw [inputsIn_eq, lookup "inputs" (by decide), get?_parts]
    cases inputs with
    | nil => simp [plugsIn]
    | cons i is => simp [inputsOf]
  have hhead : headOf position (keyed (parts b inputs ++ extra))
      b.fields = ⟨some b.type, b.id, position, b.fields, !b.isEnabled⟩ := by
    rw [headOf, lookup "type" (by decide), lookup "id" (by decide), lookup "enabled" (by decide),
      get?_parts, get?_parts, get?_parts]
    cases b.isEnabled <;> simp
  rw [record_eq, entryOf, hfields, hinputs]
  exact congrArg (Entry.block · _) hhead

end

theorem hangingEntry_parts (b : Block) (inputs : List (Key × Value)) :
    hangingEntry (.record (parts b inputs)) =
      .block ⟨some b.type, b.id, origin, b.fields, !b.isEnabled⟩ (plugsIn inputs) := by
  have hentry := entryOf_parts b inputs (fun _ _ => (rfl : Entries.get? [] _ = none)) origin
  rwa [List.append_nil] at hentry

/-- A socket with what is written of a block describes the block in the socket. -/
theorem plugsIn_cons (b : Block) (inputs : List (Key × Value)) (socket : Key)
    (rest : List (Key × Value)) :
    plugsIn ((socket, .record [("block", .record (parts b inputs))]) :: rest) =
      (socket, some (.block ⟨some b.type, b.id, origin, b.fields, !b.isEnabled⟩ (plugsIn inputs))) ::
        plugsIn rest := by
  rw [← hangingEntry_parts, plugsIn]
  rfl

theorem nextIn_eq_nil (id : Value) {es : List (Key × Value)}
    (h : Entries.get? es (.text "next") = none) : nextIn id es = [] := by
  induction es with
  | nil => rfl
  | cons e es ih =>
      rw [Entries.get?_cons] at h
      rw [nextIn, isNamed]
      split at h
      · cases h
      · rename_i he
        rw [if_neg he, ih h]

/-- A flat list of what is written of blocks describes each of them. -/
theorem listed_parts {vs : List Value} (h : ∀ v ∈ vs, ∃ b inputs, v = .record (parts b inputs)) :
    listed vs = vs.map hangingEntry := by
  induction vs with
  | nil => rfl
  | cons v vs ih =>
      obtain ⟨b, inputs, rfl⟩ := h v List.mem_cons_self
      have hnext : Entries.get? (keyed (parts b inputs))
          (.text "next") = none := by
        rw [get?_keyed, get?_parts]
        rfl
      rw [List.map_cons, ← ih fun v hv => h v (List.mem_cons_of_mem _ hv), record_eq, listed,
        hnext]
      rfl

/-- What is written of a chain describes its blocks. -/
theorem strandOf_parts (b : Block) (inputs : List (Key × Value)) (x y : Binary64) {vs : List Value}
    (h : ∀ v ∈ vs, ∃ b inputs, v = .record (parts b inputs)) :
    strandOf (chained (parts b inputs) (.float x) (.float y) vs) =
      ⟨.block ⟨some b.type, b.id, .list [.float x, .float y], b.fields, !b.isEnabled⟩
        (plugsIn inputs), vs.map hangingEntry⟩ := by
  have hextra : ∀ k ∈ partNames, Entries.get? ([("x", Value.float x), ("y", .float y)] ++
      (if vs.isEmpty then [] else [("next", Value.record [("blocks", .list vs)])])) k = none := by
    intro k hk
    rw [Entries.get?_append, get?_optional]
    simp only [partNames, List.mem_cons, List.not_mem_nil, or_false] at hk
    rcases hk with rfl | rfl | rfl | rfl | rfl <;> rfl
  have hentry := entryOf_parts b inputs hextra (.list [.float x, .float y])
  rw [← List.append_assoc] at hentry
  -- `x`, `y` and `next` are none of the keys of a block, so each lookup finds what it asks for
  unfold chained
  generalize hes : parts b inputs ++ [("x", .float x), ("y", .float y)] ++
    (if vs.isEmpty then [] else [("next", .record [("blocks", .list vs)])]) = es at hentry ⊢
  have lookup (k : String) : Entries.get? (keyed es) (.text k) =
      ((Entries.get? (parts b inputs) k).or
        (Entries.get? [("x", Value.float x), ("y", Value.float y)] k)).or
          (if k = "next" then (if vs.isEmpty then none else
            some (.record [("blocks", .list vs)])) else none) := by
    rw [get?_keyed, ← hes, Entries.get?_append, Entries.get?_append, get?_optional]
  have hx : Entries.get? (keyed es) (.text "x") = some (.float x) := by
    rw [lookup, get?_parts]
    rfl
  have hy : Entries.get? (keyed es) (.text "y") = some (.float y) := by
    rw [lookup, get?_parts]
    rfl
  have hfollowing : following (keyed es) = vs.map hangingEntry := by
    have hnext := lookup "next"
    rw [get?_parts] at hnext
    unfold following
    cases vs with
    | nil =>
        change _ = none at hnext
        rw [hnext]
        exact nextIn_eq_nil _ hnext
    | cons v vs =>
        change _ = some (Value.record [("blocks", .list (v :: vs))]) at hnext
        rw [hnext]
        exact listed_parts h
  rw [record_eq] at hentry ⊢
  dsimp only [strandOf]
  rw [hx, hy]
  exact congrArg₂ Strand.mk hentry hfollowing

end Snapshot

/-! ### Depth -/

namespace Value

theorem depthItems_le {vs : List Value} {n : Nat} (h : ∀ v ∈ vs, v.depth ≤ n) :
    depthItems vs ≤ n := by
  induction vs with
  | nil => exact Nat.zero_le n
  | cons v vs ih =>
      exact Nat.max_le.mpr ⟨h v List.mem_cons_self, ih fun v hv => h v (List.mem_cons_of_mem _ hv)⟩

theorem depthEntries_le {es : List (Key × Value)} {n : Nat} (h : ∀ e ∈ es, e.2.depth ≤ n) :
    depthEntries es ≤ n := by
  induction es with
  | nil => exact Nat.zero_le n
  | cons e es ih =>
      exact Nat.max_le.mpr ⟨h e List.mem_cons_self, ih fun e he => h e (List.mem_cons_of_mem _ he)⟩

theorem depth_list_le {vs : List Value} {n : Nat} (h : ∀ v ∈ vs, v.depth ≤ n) :
    (list vs).depth ≤ n + 1 := Nat.succ_le_succ (depthItems_le h)

theorem depth_dict_le {es : List (Key × Value)} {n : Nat} (h : ∀ e ∈ es, e.2.depth ≤ n) :
    (dict es).depth ≤ n + 1 := Nat.succ_le_succ (depthEntries_le h)

theorem depth_record_le {es : List (String × Value)} {n : Nat} (h : ∀ e ∈ es, e.2.depth ≤ n) :
    (record es).depth ≤ n + 1 := by
  refine depth_dict_le fun e he => ?_
  obtain ⟨e', he', rfl⟩ := List.mem_map.mp he
  exact h e' he'

theorem depth_of_toKey {v : Value} {k : Key} (h : v.toKey = .ok k) : v.depth = 0 := by
  cases v with
  | list | dict => cases h
  | _ => rfl

end Value

/-! ### The document of a workspace -/

namespace Workspace

variable {w : Workspace}

/-- Whether a workspace can be stored and read back, with no more than `n` values plugged into one
another. -/
structure Storable (w : Workspace) (n : Nat) : Prop where
  sound : w.Sound
  vocabulary : w.vocabulary.Storable
  placed : w.Placed
  /-- The fields of a block can be written into a new block. -/
  filled : ∀ x b d, w.block? x = some b → w.declarationOf b = .ok d →
    Edit.filled b.type d b.fields = .ok b.fields
  /-- No field holds a list or a dictionary. -/
  flat : w.Holds fun b => ∀ e ∈ b.fields, e.2.depth = 0
  nests : ∀ x, (w.block? x).isSome → w.Nests n x

/-- What is written of a block with no more than `n` values plugged into one another. -/
structure Writes (w : Workspace) (n m : Nat) (x : String) (b : Block)
    (inputs : List (Key × Value)) : Prop where
  written : Snapshot.ofBlock w m b = .ok (Snapshot.parts b inputs)
  depth : ∀ e ∈ Snapshot.parts b inputs, e.2.depth + 2 ≤ 3 * n
  shows : ∀ position, w.Shows n position x
    (.block ⟨some b.type, .text x, position, b.fields, !b.isEnabled⟩ (Snapshot.plugsIn inputs))

theorem Writes.pos {n m : Nat} {x : String} {b : Block} {inputs : List (Key × Value)}
    (h : w.Writes n m x b inputs) : 0 < n := by
  cases n with
  | zero => exact (h.shows .null).elim
  | succ n => exact Nat.succ_pos n

theorem depth_parts_le {b : Block} {inputs : List (Key × Value)} {n : Nat} (hd : b.type.depth = 0)
    (hid : b.id.depth = 0) (hf : ∀ e ∈ b.fields, e.2.depth = 0)
    (hi : (Value.dict inputs).depth ≤ 3 * n + 1) :
    ∀ e ∈ Snapshot.parts b inputs, e.2.depth + 2 ≤ 3 * (n + 1) := by
  have hfields : (Value.dict b.fields).depth ≤ 1 :=
    Value.depth_dict_le fun e he => Nat.le_of_eq (hf e he)
  intro e he
  simp only [Snapshot.parts, List.mem_append, List.mem_cons, List.not_mem_nil, or_false] at he
  rcases he with (((rfl | rfl) | he) | he) | he
  · dsimp only
    omega
  · dsimp only
    omega
  · split at he
    · cases he
    · rw [List.mem_singleton.mp he]
      change 0 + 2 ≤ _
      omega
  · split at he
    · cases he
    · rw [List.mem_singleton.mp he]
      dsimp only
      omega
  · split at he
    · cases he
    · rw [List.mem_singleton.mp he]
      dsimp only
      omega

/-- What is written of each block is there, and it describes the block. -/
theorem Storable.exists_writes {k : Nat} (h : w.Storable k) {n m : Nat} {x : String} {b : Block}
    (hnm : n ≤ m) (hn : w.Nests n x) (hb : w.block? x = some b) : ∃ inputs, w.Writes n m x b inputs := by
  -- on how deeply values are plugged into `x`, which is no more than the fuel `m` that is left
  induction n generalizing m x b with
  | zero => exact hn.elim
  | succ n ih =>
      obtain ⟨m, rfl⟩ := Nat.exists_eq_succ_of_ne_zero (Nat.ne_zero_of_lt hnm)
      obtain ⟨d, htype, hd⟩ := h.sound.exists_type hb
      have hplugs := h.sound.plugs_eq hb htype
      have below : ∀ p ∈ w.plugged x d, ∃ i, Snapshot.inputAt w m (.text p.1, .text p.2) = .ok i ∧
          ∃ c inputs, i = (.text p.1, .record [("block", .record (Snapshot.parts c inputs))]) ∧
            c.id = .text p.2 ∧ w.Writes n m p.2 c inputs := by
        intro p hp
        have hchild := child?_of_mem_plugged (w := w) (x := x) (d := d) hp
        obtain ⟨c, hc⟩ := Option.isSome_iff_exists.mp (h.sound.isSome_child hchild)
        obtain ⟨inputs, hwrites⟩ := ih (Nat.le_of_succ_le_succ hnm) (hn _ _ hchild) hc
        exact ⟨_, Snapshot.inputAt_eq rfl hc hwrites.written, c, inputs, rfl, h.sound.id_eq hc,
          hwrites⟩
      obtain ⟨inputs, hinputs, hall⟩ := exists_mapM below
      have hinputs' : (Snapshot.plugs b d).mapM (Snapshot.inputAt w m) = .ok inputs := by
        rw [hplugs, List.mapM_map]
        exact hinputs
      -- each value that is plugged in adds three records: `inputs`, the socket and `block`
      have hdepth : (Value.dict inputs).depth ≤ 3 * n + 1 := by
        refine Value.depth_dict_le fun i hi => ?_
        obtain ⟨p, -, c, inputs', rfl, -, hwrites⟩ := exists_of_mem_forall₂ hall hi
        have hpos := hwrites.pos
        have hparts : (Value.record (Snapshot.parts c inputs')).depth ≤ 3 * n - 2 + 1 :=
          Value.depth_record_le fun e he => by
            have := hwrites.depth e he
            omega
        refine (Value.depth_record_le (n := 3 * n - 1) fun e he => ?_).trans ?_
        · rw [List.mem_singleton.mp he]
          dsimp only
          omega
        · omega
      refine ⟨inputs, ?_, ?_, fun position => ?_⟩
      · rw [Snapshot.ofBlock_succ, hd]
        change (do
          let inputs ← (Snapshot.plugs b d).mapM (Snapshot.inputAt w m)
          return Snapshot.parts b inputs) = _
        rw [hinputs']
        rfl
      · refine depth_parts_le ?_ (by rw [h.sound.id_eq hb]; rfl) (h.flat x b hb) hdepth
        obtain ⟨k, hk, -⟩ := exists_of_bind_ok hd
        exact Value.depth_of_toKey hk
      · refine ⟨b, d, _, hb, hd, rfl, ?_⟩
        -- socket by socket; only `hall` speaks of them, so the list of sockets may be any
        clear hinputs hinputs' hdepth below hplugs
        generalize w.plugged x d = ps at hall
        induction hall with
        | nil => exact .nil
        | @cons p i ps is hp _ ih =>
            obtain ⟨c, inputs', rfl, hid, hwrites⟩ := hp
            rw [Snapshot.plugsIn_cons]
            refine .cons ⟨_, rfl, ?_⟩ ih
            rw [hid]
            exact hwrites.shows _

/-- Whether a value is what is written of a block that follows another one. -/
def Lists (w : Workspace) (n : Nat) (y : String) (v : Value) : Prop :=
  ∃ c inputs, v = .record (Snapshot.parts c inputs) ∧ c.id = .text y ∧
    w.Writes n Snapshot.nestingLimit y c inputs

theorem Storable.exists_items {n : Nat} (h : w.Storable n) (hn : n ≤ Snapshot.nestingLimit)
    {m : List String} {chain : List (Key × Block)}
    (hall : List.Forall₂ (fun y e => e.1 = Key.text y ∧ w.block? y = some e.2) m chain) :
    ∃ vs, Snapshot.itemsOf w chain = .ok vs ∧ List.Forall₂ (w.Lists n) m vs := by
  induction hall with
  | nil => exact ⟨[], rfl, .nil⟩
  | @cons y e m chain he _ ih =>
      obtain ⟨vs, hvs, hlists⟩ := ih
      obtain ⟨inputs, hwrites⟩ := h.exists_writes hn (h.nests y (by rw [he.2]; rfl)) he.2
      refine ⟨.record (Snapshot.parts e.2 inputs) :: vs, ?_,
        .cons ⟨e.2, inputs, rfl, h.sound.id_eq he.2, hwrites⟩ hlists⟩
      unfold Snapshot.itemsOf at hvs ⊢
      rw [List.mapM_cons, hwrites.written, hvs]
      rfl

/-- A chain is three levels deeper than what follows its first block. -/
theorem depth_chained_le {entry : List (String × Value)} {x y : Value} {items : List Value} {n : Nat}
    (hentry : ∀ e ∈ entry, e.2.depth ≤ n + 2) (hx : x.depth = 0) (hy : y.depth = 0)
    (hitems : ∀ v ∈ items, v.depth ≤ n) : (Snapshot.chained entry x y items).depth ≤ n + 3 := by
  refine Value.depth_record_le fun e he => ?_
  simp only [List.mem_append, List.mem_cons, List.not_mem_nil, or_false] at he
  rcases he with (he | rfl | rfl) | he
  · exact hentry e he
  · exact (Nat.le_of_eq hx).trans (Nat.zero_le _)
  · exact (Nat.le_of_eq hy).trans (Nat.zero_le _)
  · split at he
    · cases he
    · rw [List.mem_singleton.mp he]
      refine Value.depth_record_le (n := n + 1) fun e he => ?_
      rw [List.mem_singleton.mp he]
      exact Value.depth_list_le hitems

/-- What is written of each chain is there, and it describes the chain. -/
theorem Storable.exists_ofChain {n : Nat} (h : w.Storable n) (hn : n ≤ Snapshot.nestingLimit)
    {x : String} {b : Block} (hb : w.block? x = some b) :
    ∃ v, Snapshot.ofChain w b = .ok v ∧ v.depth ≤ 3 * n + 2 ∧
      w.ShowsStrand n b (Snapshot.strandOf v) := by
  have hid := h.sound.id_eq hb
  have hnests := h.nests x (by rw [hb]; rfl)
  obtain ⟨inputs, hwrites⟩ := h.exists_writes hn hnests hb
  obtain ⟨cx, cy, hpos⟩ := h.placed x b hb
  obtain ⟨l, chain, hl, hchain, hall⟩ := h.sound.exists_chain (x := x) (by rw [hb]; rfl)
  obtain ⟨m, rfl⟩ : ∃ m, l = x :: m := by
    cases hl with
    | root => exact ⟨[], rfl⟩
    | step => exact ⟨_, rfl⟩
  cases hall with
  | @cons _ e _ tail he hall =>
      obtain ⟨vs, hvs, hitems⟩ := h.exists_items hn hall
      have hdepth : ∀ v ∈ vs, v.depth + 1 ≤ 3 * n := fun v hv => by
        obtain ⟨y, -, c, inputs, rfl, -, hw⟩ := exists_of_mem_forall₂ hitems hv
        have hpos := hw.pos
        have := Value.depth_record_le (n := 3 * n - 2) fun e he => by
          have := hw.depth e he
          omega
        omega
      have hparts : ∀ v ∈ vs, ∃ c inputs, v = .record (Snapshot.parts c inputs) := fun v hv => by
        obtain ⟨y, -, c, inputs, rfl, -⟩ := exists_of_mem_forall₂ hitems hv
        exact ⟨c, inputs, rfl⟩
      refine ⟨Snapshot.chained (Snapshot.parts b inputs) (.float cx) (.float cy) vs, ?_, ?_,
        x, m, hid, hl, ?_, ?_⟩
      · have hcx : coordinate b 0 = .ok (.float cx) := by rw [coordinate, hpos]; rfl
        have hcy : coordinate b 1 = .ok (.float cy) := by rw [coordinate, hpos]; rfl
        simp only [Snapshot.ofChain_eq, hid, Value.toKey_text, hcx, hcy, Bind.bind, Except.bind,
          hchain, hwrites.written, List.tail_cons, hvs]
        rfl
      · have hpos := hwrites.pos
        refine (depth_chained_le (n := 3 * n - 1) (fun e he => ?_) rfl rfl fun v hv =>
          Nat.le_sub_of_add_le (hdepth v hv)).trans (by omega)
        have := hwrites.depth e he
        omega
      · rw [Snapshot.strandOf_parts b inputs cx cy hparts, hid, hpos]
        exact hwrites.shows _
      · rw [Snapshot.strandOf_parts b inputs cx cy hparts]
        refine List.forall₂_map_right_iff.mpr (hitems.imp fun y v hv => ?_)
        obtain ⟨c, inputs', rfl, hc, hw⟩ := hv
        rw [Snapshot.hangingEntry_parts, hc]
        exact hw.shows _

/-- A document is three levels deeper than the chains in it. -/
theorem depth_enclosed_le {chains : List Value} {n : Nat} (h : ∀ v ∈ chains, v.depth ≤ n) :
    (Value.record [("blocks", .record
      [("languageVersion", .int Snapshot.version), ("blocks", .list chains)])]).depth ≤ n + 3 := by
  have hlist : (Value.list chains).depth ≤ n + 1 := Value.depth_list_le h
  refine Value.depth_record_le (n := n + 2) fun e he => ?_
  rw [List.mem_singleton.mp he]
  refine Value.depth_record_le fun e he => ?_
  simp only [List.mem_cons, List.not_mem_nil, or_false] at he
  rcases he with rfl | rfl
  · exact Nat.zero_le _
  · exact hlist

/-- **The document of a workspace is there, and its outline shows the workspace.** -/
theorem Storable.exists_outline {n : Nat} (h : w.Storable n) (hn : n ≤ Snapshot.nestingLimit)
    {tops : List Block} (htops : w.tops = .ok tops)
    (hmem : ∀ b ∈ tops, ∃ x, w.block? x = some b) :
    ∃ document strands, Snapshot.ofWorkspace w = .ok document ∧ document.depth ≤ 3 * n + 5 ∧
      Snapshot.outline document = .ok strands ∧ List.Forall₂ (w.ShowsStrand n) tops strands := by
  obtain ⟨chains, hchains, hall⟩ := exists_mapM (f := Snapshot.ofChain w) fun b hb => by
    obtain ⟨x, hx⟩ := hmem b hb
    exact h.exists_ofChain hn hx
  have hdocument : Snapshot.ofWorkspace w = (if chains.isEmpty then return .dict [] else
      return .record [("blocks", .record
        [("languageVersion", .int Snapshot.version), ("blocks", .list chains)])]) := by
    simp only [Snapshot.ofWorkspace, htops, Bind.bind, Except.bind, hchains]
  have hstrands : List.Forall₂ (w.ShowsStrand n) tops (chains.map Snapshot.strandOf) :=
    List.forall₂_map_right_iff.mpr (hall.imp fun _ _ hv => hv.2)
  cases chains with
  | nil => exact ⟨_, [], hdocument, Nat.le_trans (by decide) (Nat.le_add_left 5 _), rfl, hstrands⟩
  | cons v vs =>
      refine ⟨_, _, hdocument, depth_enclosed_le fun v' hv => ?_, rfl, hstrands⟩
      obtain ⟨b, -, hv, -⟩ := exists_of_mem_forall₂ hall hv
      exact hv

end Workspace

end Blockwork
