import Blockwork.Compile.Basic
import Blockwork.Proofs.Lasting
import Blockwork.Proofs.Outlining

/-!
# Workspaces with few blocks

What it takes to say what a workspace holds after a few calls.  An audience that keeps its hands off
the workspace leaves there what the edits of the calls leave (`Call.workspace_after_create`,
`Call.workspace_after_command`).  What parts of edits come to in a workspace whose blocks are listed
is read off the list (`Workspace.Listed`), also where the workspace is not sound; and the program
and the document of a workspace with just one block at the top, or with none, are known
(`Workspace.Sole.program`, `Workspace.Sole.document`).
-/

namespace Blockwork

variable {σ : Type}

/-! ### Audiences that leave the workspace alone -/

/-- Whether an audience leaves the workspace as it is. -/
def Audience.Aloof (a : Audience σ) : Prop :=
  ∀ w c, Keeps (fun s : Scene σ => s.workspace = w) (a.hear c)

theorem Audience.aloof_journal : Audience.journal.Aloof := fun _ _ _ h => Ends.modify h

variable {a : Audience σ}

/-- A call changes the workspace as its edit does. -/
theorem Call.workspace_after_create (ha : a.Aloof) (s : Scene σ) (type id position : Value)
    (fields : List (Key × Value)) : ((Call.create type id position fields).after a s).workspace =
      stateAfter (Edit.create type id position fields) s.workspace := by
  let P (t : Scene σ) := t.workspace = stateAfter (Edit.create type id position fields) s.workspace
  refine Ends.stateAfter (P := P) (Ends.bind (Ends.bind (Act.ends_edit ?_)))
  refine (Ends.of_stateAfter (P := (· = _)) rfl).mono (fun r w hw => ?_) fun _ _ hw => hw
  have htold := Act.keeps_tellAll (Act.keeps_tell (ha w)) r.2 { s with workspace := w } rfl
  refine Ends.bind (htold.mono (fun _ _ ht => ?_) fun _ _ ht => ht.trans hw)
  exact Ends.pure (Ends.pure (ht.trans hw))

theorem Call.workspace_after_command (ha : a.Aloof) (s : Scene σ) (c : Command) :
    ((Call.command c).after a s).workspace = stateAfter c.edit s.workspace := by
  let P (t : Scene σ) := t.workspace = stateAfter c.edit s.workspace
  refine Ends.stateAfter (P := P) (Ends.bind (Act.ends_edit ?_))
  refine (Ends.of_stateAfter (P := (· = _)) rfl).mono (fun r w hw => ?_) fun _ _ hw => hw
  exact (Act.keeps_tellAll (Act.keeps_tell (ha _)) _ _ hw).mono (fun _ _ ht => ht) fun _ _ ht => ht

/-- What the creation of a block comes to. -/
theorem Edit.stateAfter_create {w : Workspace} {type position : Value} {x : String}
    {given fields : List (Key × Value)} {d : Declaration} {coords : List Value}
    (h : Creates w type (.text x) position given d fields coords) :
    stateAfter (create type (.text x) position given) w =
      w.insert x (newBlock x type d fields coords) := by
  refine Ends.stateAfter (P := fun t => t = _) (ends_create (.inr ⟨x, rfl⟩) (fun e hno => ?_) ?_)
  · exact absurd h (hno _ _ _)
  · intro d' fields' coords' h'
    obtain rfl := Except.ok.inj (h.declared.symm.trans h'.declared)
    obtain rfl := Except.ok.inj (h.filled.symm.trans h'.filled)
    obtain rfl := Except.ok.inj (h.placed.symm.trans h'.placed)
    rfl

/-- What turning a block on or off comes to. -/
theorem Edit.stateAfter_setEnabled {w : Workspace} {x : String} {b : Block} {enabled : Value}
    (hb : w.block? x = some b) (hne : b.enabled.same enabled = false) :
    stateAfter (setEnabled (.text x) enabled) w = w.edit x fun b => { b with enabled } := by
  refine Ends.stateAfter (P := fun t => t = _) (Ends.bind (ends_require (fun c hc => ?_) fun hc => ?_))
  · obtain rfl := Option.some.inj (hb.symm.trans hc)
    rw [if_neg (by rw [hne]; exact Bool.false_ne_true)]
    exact Ends.bind (ends_update (Ends.pure rfl))
  · exact nomatch hb.symm.trans hc

/-- Where every block hangs from another one, none is at the top. -/
theorem Workspace.tops_of_spots {w : Workspace} (hs : w.spots = .ok []) : w.tops = .ok [] := by
  simp only [Workspace.tops, hs]
  unfold Sorting.sort Sorting.pileUp
  rfl

/-- Where every block hangs from another one, emptying the workspace does nothing. -/
theorem Act.ends_clear_topless {s : Scene σ} (hs : s.workspace.spots = .ok [])
    {good : Unit → Scene σ → Prop} {bad : Error → Scene σ → Prop} (hg : good () s) :
    Ends (clear a) s good bad :=
  Ends.bind (Ends.get (Ends.bind (ends_ofExcept_ok (Workspace.tops_of_spots hs) (Ends.pure hg))))

namespace Workspace

/-! ### Workspaces that are listed -/

/-- Whether a workspace has the blocks of a list, and keeps changes from its audience a number of
times. -/
structure Listed (v : Vocabulary) (muted : Nat) (es : List (Key × Block)) (w : Workspace) : Prop where
  vocabulary : w.vocabulary = v
  muted : w.muted = muted
  entries : w.entries = es

theorem listed_new {v : Vocabulary} (hv : v.declarations.isEmpty = false) (created : Nat) :
    (Workspace.new v created).Listed v 0 [] where
  vocabulary := if_neg (Bool.not_eq_true _ ▸ hv)
  muted := rfl
  entries := rfl

namespace Listed

variable {v : Vocabulary} {muted : Nat} {es : List (Key × Block)} {w : Workspace} {k : Key}
  {b : Block} {α : Type}

theorem find?_eq (h : w.Listed v muted es) (k : Key) : w.find? k = Entries.get? es k :=
  (Table.find?_eq _ _).trans (congrArg (Entries.get? · k) h.entries)

theorem exists_mem (h : w.Listed v muted es) (hb : w.find? k = some b) :
    ∃ j, (j, b) ∈ es ∧ (j == k) = true :=
  Entries.exists_mem_of_get? ((h.find?_eq k).symm.trans hb)

theorem size_eq (h : w.Listed v muted es) : w.size = es.length :=
  w.table.size_eq.trans (congrArg List.length h.entries)

theorem declarationOf_eq (h : w.Listed v muted es) {name : String} {d : Declaration}
    (hb : b.type = .text name) (hd : v.get (.text name) = .ok d) : w.declarationOf b = .ok d := by
  rw [Workspace.declarationOf, h.vocabulary, hb]
  exact hd

/-- A block that hangs nowhere does not hang from another one. -/
theorem hangsFrom_loose (h : w.Listed v muted es) {x y : String}
    (hb : Entries.get? es (.text x) = some b) (hid : b.id = .text x) (hp : b.parent = .null)
    (hxy : x ≠ y) : w.hangsFrom (.text y) (.text x) = .ok false := by
  unfold Workspace.hangsFrom
  cases w.size with
  | zero => rfl
  | succ n =>
      simp [Workspace.reachesUp, h.find?_eq, hb, hid, Value.same_text, hp, Value.isTruthy, hxy, pure,
        Except.pure]

theorem hushed (h : w.Listed v muted es) (n : Nat) : ({ w with muted := n } : Workspace).Listed v n es :=
  ⟨h.vocabulary, rfl, h.entries⟩

theorem insert (h : w.Listed v muted es) (x : String) (b : Block) :
    (w.insert x b).Listed v muted (Entries.put es (.text x) b) :=
  ⟨h.vocabulary, h.muted,
    (Table.entries_put _ _ _).trans (congrArg (fun es => Entries.put es (Key.text x) b) h.entries)⟩

theorem ends_require (h : w.Listed v muted es) (hb : Entries.get? es k = some b)
    {good : Block → Workspace → Prop} {bad : Error → Workspace → Prop} (hg : good b w) :
    Ends (Edit.require k) w good bad := by
  refine Ends.bind (Ends.get ?_)
  rw [h.find?_eq, hb]
  exact Ends.pure hg

theorem ends_update (h : w.Listed v muted es) (hb : Entries.get? es k = some b)
    {f : Block → Block} {good : Unit → Workspace → Prop} {bad : Error → Workspace → Prop}
    (hg : ∀ u : Workspace, u.Listed v muted (Entries.put es k (f b)) → u.dragging = w.dragging →
      good () u) : Ends (Edit.update k f) w good bad := by
  refine Ends.modify (hg _ ⟨h.vocabulary, h.muted, ?_⟩ rfl)
  have hf : w.table.find? k = some b := (h.find?_eq k).trans hb
  unfold Table.modify
  rw [hf]
  exact (Table.entries_put _ _ _).trans (congrArg (Entries.put · k (f b)) h.entries)

/-- Editing a block puts it in its place. -/
theorem edit (h : w.Listed v muted es) {x : String} (hb : Entries.get? es (.text x) = some b)
    (f : Block → Block) : (w.edit x f).Listed v muted (Entries.put es (.text x) (f b)) := by
  refine ⟨h.vocabulary, h.muted, ?_⟩
  have hf : w.table.find? (.text x) = some b := (h.find?_eq _).trans hb
  rw [Workspace.entries, Workspace.edit, Table.modify, hf]
  exact (Table.entries_put _ _ _).trans
    (congrArg (fun es => Entries.put es (Key.text x) (f b)) h.entries)

theorem ends_unplug_loose (h : w.Listed v muted es) (hb : Entries.get? es k = some b)
    (hp : b.parent = .null) {good : Unit → Workspace → Prop} {bad : Error → Workspace → Prop}
    (hg : good () w) : Ends (Edit.unplug k) w good bad := by
  refine Ends.bind (Edit.ends_deref ((h.find?_eq k).trans hb) ?_)
  rw [if_pos hp]
  exact Ends.pure hg

/-- A block that hangs in no socket is taken from behind the one that it hangs from, whatever is
there. -/
theorem ends_unplug_behind (h : w.Listed v muted es) (hb : Entries.get? es k = some b)
    {j : Key} (hp : b.parent ≠ .null) (hj : b.parent.toKey = .ok j) (hi : b.parentInput = .null)
    {p c : Block} (ha : Entries.get? es j = some p)
    (hc : Entries.get? (Entries.put es j { p with next := .null }) k = some c)
    {good : Unit → Workspace → Prop} {bad : Error → Workspace → Prop}
    (hg : ∀ u : Workspace, u.Listed v muted (Entries.put (Entries.put es j { p with next := .null }) k
      { c with parent := .null, parentInput := .null }) → u.dragging = w.dragging → good () u) :
    Ends (Edit.unplug k) w good bad := by
  refine Ends.bind (Edit.ends_deref ((h.find?_eq k).trans hb) ?_)
  rw [if_neg hp]
  refine Ends.bind (Edit.ends_follow hj ((h.find?_eq j).trans ha) ?_)
  dsimp only
  rw [if_pos hi]
  exact Ends.bind (h.ends_update ha fun u hu hd => hu.ends_update hc fun t ht hd' =>
    hg t ht (hd'.trans hd))

theorem ends_removeAll_cons (h : w.Listed v muted es) {id : Value} {ids : List Value}
    (hk : id.toKey = .ok k) (hb : Entries.get? es k = some b) {good : Unit → Workspace → Prop}
    {bad : Error → Workspace → Prop}
    (hg : ∀ u : Workspace, u.Listed v muted (Entries.erase es k) → u.dragging = w.dragging →
      Ends (Edit.removeAll ids) u good bad) : Ends (Edit.removeAll (id :: ids)) w good bad := by
  refine Ends.bind (Edit.ends_follow hk ((h.find?_eq k).trans hb) ?_)
  refine Ends.bind (Ends.modify (hg _ ⟨h.vocabulary, h.muted, ?_⟩ rfl))
  exact (Table.entries_erase _ _).trans (congrArg (Entries.erase · k) h.entries)

/-- A block that hangs nowhere is let follow one that nothing follows. -/
theorem ends_connectNext_free (h : w.Listed v muted es) {x y : String} {p c c' : Block}
    {d e : Declaration} (hp : Entries.get? es (.text x) = some p)
    (hc : Entries.get? es (.text y) = some c) (hd : w.declarationOf p = .ok d) (hnext : d.next = true)
    (he : w.declarationOf c = .ok e) (hprevious : e.previous = true)
    (hangs : w.hangsFrom (.text y) (.text x) = .ok false) (hfree : p.next = .null)
    (hloose : c.parent = .null)
    (hc' : Entries.get? (Entries.put es (.text x) { p with next := .text y }) (.text y) = some c')
    {good : List Notice → Workspace → Prop} {bad : Error → Workspace → Prop}
    (hg : ∀ (ns : List Notice) (u : Workspace), u.Listed v muted
      (Entries.put (Entries.put es (.text x) { p with next := .text y }) (.text y)
        { c' with parent := .text x, parentInput := .null }) → good ns u) :
    Ends (Edit.connectNext (.text x) (.text y)) w good bad := by
  have hother : ¬ p.next.same (.ofKey (.text y)) = true := fun hs =>
    nomatch hfree.symm.trans (Value.same_text_right.mp hs)
  unfold Edit.connectNext
  refine Ends.bind (h.ends_require hp (Ends.bind (h.ends_require hc ?_)))
  refine Ends.bind (Edit.ends_declarationOf_ok hd ?_)
  refine Edit.ends_guard (fun hv => absurd hv (by simp [hnext])) fun _ => ?_
  refine Ends.bind (Edit.ends_declarationOf_ok he ?_)
  refine Edit.ends_guard (fun hv => absurd hv (by simp [hprevious])) fun _ => ?_
  refine Ends.bind (Ends.get (Ends.bind (Edit.ends_ofExcept_ok hangs ?_)))
  refine Edit.ends_guard (fun hv => absurd hv (by decide)) fun _ => ?_
  rw [if_neg hother]
  refine Ends.bind (h.ends_unplug_loose hc hloose ?_)
  refine Ends.bind (Edit.ends_deref ((h.find?_eq _).trans hp) ?_)
  dsimp only
  rw [if_neg (by simp [hfree])]
  refine Ends.bind (h.ends_update hp fun w h _ => Ends.bind (h.ends_update hc' fun w h _ => ?_))
  rw [if_neg (by simp [hfree])]
  exact Ends.pure (hg _ w h)

/-- A block that hangs nowhere is plugged into an empty socket that takes it. -/
theorem ends_connectValue_free (h : w.Listed v muted es) {x y : String} {p c c' : Block}
    {d e : Declaration} {s : Socket} {socket : Value} {name : Key}
    (hp : Entries.get? es (.text x) = some p) (hc : Entries.get? es (.text y) = some c)
    (hd : w.declarationOf p = .ok d) (hs : d.input? socket = some s) (hname : socket.key? = some name)
    (he : w.declarationOf c = .ok e) (hvalue : e.isValue = true) (hfits : e.fits s = .ok true)
    (hangs : w.hangsFrom (.text y) (.text x) = .ok false) (hfree : Entries.get? p.inputs name = none)
    (hloose : c.parent = .null)
    (hc' : Entries.get? (Entries.put es (.text x)
      { p with inputs := Entries.put p.inputs name (.text y) }) (.text y) = some c')
    {good : List Notice → Workspace → Prop} {bad : Error → Workspace → Prop}
    (hg : ∀ (ns : List Notice) (u : Workspace), u.Listed v muted
      (Entries.put (Entries.put es (.text x) { p with inputs := Entries.put p.inputs name (.text y) })
        (.text y) { c' with parent := .text x, parentInput := socket }) → good ns u) :
    Ends (Edit.connectValue (.text x) socket (.text y)) w good bad := by
  unfold Edit.connectValue
  refine Ends.bind (h.ends_require hp (Ends.bind (h.ends_require hc ?_)))
  refine Ends.bind (Edit.ends_declarationOf_ok hd ?_)
  simp only [hs, hname]
  refine Ends.bind (Edit.ends_declarationOf_ok he ?_)
  refine Edit.ends_guard (fun hv => absurd hv (by simp [hvalue])) fun _ => ?_
  refine Ends.bind (Edit.ends_ofExcept_ok hfits ?_)
  refine Edit.ends_guard (fun hv => absurd hv (by decide)) fun _ => ?_
  refine Ends.bind (Ends.get (Ends.bind (Edit.ends_ofExcept_ok hangs ?_)))
  refine Edit.ends_guard (fun hv => absurd hv (by decide)) fun _ => ?_
  rw [hfree]
  rw [if_neg (by simp [Value.same_text_right])]
  dsimp only [Option.getD]
  rw [if_neg (by decide)]
  refine Ends.bind (h.ends_unplug_loose hc hloose ?_)
  refine Ends.bind (h.ends_update hp fun w h _ => Ends.bind (h.ends_update hc' fun w h _ => ?_))
  exact Ends.pure (hg _ w h)

end Listed

/-! ### Workspaces with one block -/

/-- There is nothing to sort where only one block hangs nowhere. -/
theorem sort_spot (b : Block) (cx cy : Binary64) (rank : Nat) :
    Sorting.sort Spot.before [⟨b, .float cy, .float cx, rank⟩] =
      some [⟨b, .float cy, .float cx, rank⟩] := by
  have hnumbered : ∀ s ∈ [(⟨b, .float cy, .float cx, rank⟩ : Spot)], s.Numbered := by
    simp only [List.mem_singleton, forall_eq]
    exact ⟨cx, cy, rfl, rfl⟩
  obtain ⟨sorted, hs⟩ := Option.isSome_iff_exists.mp
    (Sorting.answers_sort Spot.answers_before hnumbered)
  rw [hs, (Sorting.sort_perm hs).eq_singleton]

/-- Where there are no blocks, none is at the top. -/
theorem tops_bare {w : Workspace} (h : w.entries = []) : w.tops = .ok [] := by
  refine tops_of_spots ?_
  rw [spots, h]
  rfl

/-- Whether a workspace has just one block, which hangs nowhere. -/
structure Lone (w : Workspace) (x : String) (b : Block) : Prop where
  entries : w.entries = [(.text x, b)]
  id : b.id = .text x
  next : b.next = .null
  parent : b.parent = .null
  inputs : b.inputs = []

variable {w : Workspace} {x y : String} {b : Block}

theorem lone_insert (v : Vocabulary) (n : Nat) (x : String) (type : Value) (d : Declaration)
    (fields : List (Key × Value)) (coords : List Value) :
    ((Workspace.new v n).insert x (Edit.newBlock x type d fields coords)).Lone x
      (Edit.newBlock x type d fields coords) where
  entries := Table.entries_put _ _ _
  id := rfl
  next := rfl
  parent := rfl
  inputs := rfl

theorem Lone.block? (h : w.Lone x b) (y : String) :
    w.block? y = if x = y then some b else none := by
  have hw : w.table.entries = [(.text x, b)] := h.entries
  rw [Workspace.block?, find?, Table.find?_eq, hw, Entries.get?_cons, Key.beq_text]
  by_cases hxy : x = y
  · simp [hxy]
  · simp [hxy, Entries.get?]

theorem Lone.block?_self (h : w.Lone x b) : w.block? x = some b := by rw [h.block?, if_pos rfl]

theorem Lone.eq_of_block? (h : w.Lone x b) {c : Block} (hc : w.block? y = some c) : c = b := by
  rw [h.block?] at hc
  split at hc
  · exact (Option.some.inj hc).symm
  · cases hc

theorem Lone.eq_of_mem_blocks (h : w.Lone x b) {c : Block} (hc : c ∈ w.blocks) : c = b := by
  rw [Workspace.blocks, h.entries] at hc
  exact List.mem_singleton.mp hc

theorem Lone.edit (h : w.Lone x b) {f : Block → Block} (hid : (f b).id = b.id)
    (hnext : (f b).next = b.next) (hparent : (f b).parent = b.parent)
    (hinputs : (f b).inputs = b.inputs) : (w.edit x f).Lone x (f b) where
  entries := by
    have hw : w.table.entries = [(.text x, b)] := h.entries
    have hf : w.table.find? (.text x) = some b := h.block?_self
    rw [Workspace.entries, Workspace.edit, Table.modify, hf, Table.entries_put, hw]
    simp [Entries.put]
  id := hid.trans h.id
  next := hnext.trans h.next
  parent := hparent.trans h.parent
  inputs := hinputs.trans h.inputs

theorem Lone.nests (h : w.Lone x b) {n : Nat} : w.Nests (n + 1) y := by
  intro s c hc
  obtain ⟨b', hb, hc⟩ := child?_eq_some.mp hc
  obtain rfl := h.eq_of_block? hb
  rw [Block.child?, h.inputs] at hc
  cases hc

/-- The block is all there is at the top. -/
theorem Lone.tops (h : w.Lone x b) {cx cy : Binary64} (hp : b.position = [.float cx, .float cy]) :
    w.tops = .ok [b] := by
  have hcx : coordinate b 0 = .ok (.float cx) := by rw [coordinate, hp]; rfl
  have hcy : coordinate b 1 = .ok (.float cy) := by rw [coordinate, hp]; rfl
  have htop : b.isTop = true := decide_eq_true h.parent
  have hspot : w.spotOf (.text x) b 0 = .ok ⟨b, .float cy, .float cx, 0⟩ := by
    have hrank : w.rankOf (.text x) 0 (.text x) = .ok 0 := by
      rw [rankOf, Value.toKey_text]
      exact if_pos BEq.rfl
    rw [spotOf, hcx, hcy, h.id, hrank]
    rfl
  have hspots : w.spots = .ok [⟨b, .float cy, .float cx, 0⟩] := by
    simp [spots, h.entries, htop, hspot, Bind.bind, Except.bind, Pure.pure, Except.pure]
  have hsort := sort_spot b cx cy 0
  simp only [Workspace.tops, hspots, Bind.bind, Except.bind, hsort]
  rfl

/-- The block is all there is in its chain. -/
theorem Lone.chain (h : w.Lone x b) : w.chain (.text x) = .ok [(.text x, b)] := by
  have hsize : w.size = 1 := by
    rw [size, Table.size_eq]
    exact congrArg List.length h.entries
  have hf : w.find? (.text x) = some b := h.block?_self
  rw [Workspace.chain, hsize, chainFrom, hf]
  simp only [h.next]
  rfl

/-- Whether just one block hangs nowhere, and nothing hangs from it. -/
structure Sole (w : Workspace) (x : String) (b : Block) : Prop where
  tops : w.tops = .ok [b]
  chain : w.chain (.text x) = .ok [(.text x, b)]
  id : b.id = .text x
  inputs : b.inputs = []

theorem Lone.sole (h : w.Lone x b) {cx cy : Binary64} (hp : b.position = [.float cx, .float cy]) :
    w.Sole x b := ⟨h.tops hp, h.chain, h.id, h.inputs⟩

/-- The program of one block of which a rule makes steps. -/
theorem Sole.program (h : w.Sole x b)
    (he : b.isEnabled = true) {t : Compiler} {k : Key} {rule : Compile.Rule}
    (hk : b.type.toKey = .ok k) (hr : Entries.get? t.rules k = some rule) {ops : List Op}
    {d : Draft} (hops : ∀ plug, rule ⟨b, plug⟩ { used := t.reserved } = .ok (.ops ops) d) :
    t.program w = .ok
      { chains := [[{ block := b.id, type := b.type, ops }]]
        definitions := d.definitions
        imports := d.imports } := by
  have houtcome : Compile.outcome t w Compile.nestingLimit b { used := t.reserved } =
      .ok (.ops ops) d := by
    rw [Compile.nestingLimit, Compile.outcome, hk]
    simp only [Compile.ofExcept, Bind.bind, EStateM.bind, Pure.pure, EStateM.pure, hr]
    exact hops _
  have hchain : Compile.chain t w b { used := t.reserved } =
      .ok [{ block := b.id, type := b.type, ops }] d := by
    unfold Compile.chain
    rw [h.id, Value.toKey_text]
    simp only [Bind.bind, Except.bind, h.chain, Compile.ofExcept, EStateM.bind, Pure.pure,
      EStateM.pure, List.map_cons, List.map_nil, List.filter_cons, he, if_true, List.filter_nil,
      List.mapM_cons, List.mapM_nil, Compile.fragment, houtcome, h.id]
  unfold Compiler.program Compile.chains
  simp only [h.tops, Compile.ofExcept, Bind.bind, EStateM.bind, Pure.pure, EStateM.pure,
    List.mapM_cons, List.mapM_nil, hchain]
  rfl

/-- Where no block is at the top there is nothing to run. -/
theorem program_topless (h : w.tops = .ok []) (t : Compiler) :
    t.program w = .ok { chains := [], definitions := [], imports := [] } := by
  unfold Compiler.program Compile.chains
  simp only [h, Compile.ofExcept, Bind.bind, EStateM.bind, Pure.pure, EStateM.pure,
    List.mapM_nil]
  rfl

/-- The document of one block. -/
theorem Sole.document (h : w.Sole x b) {cx cy : Binary64} (hp : b.position = [.float cx, .float cy])
    {d : Declaration} (hd : w.declarationOf b = .ok d) : Snapshot.ofWorkspace w =
      .ok (.record [("blocks", .record [("languageVersion", .int Snapshot.version),
        ("blocks", .list [Snapshot.chained (Snapshot.parts b []) (.float cx) (.float cy) []])])]) := by
  have hchain := h.chain
  have hplugs : Snapshot.plugs b d = [] := by
    unfold Snapshot.plugs
    rw [h.inputs]
    refine List.filterMap_eq_nil_iff.mpr fun s _ => ?_
    cases s.name.key? <;> rfl
  have hblock : Snapshot.ofBlock w Snapshot.nestingLimit b = .ok (Snapshot.parts b []) := by
    rw [Snapshot.nestingLimit, Snapshot.ofBlock_succ, hd]
    simp only [Bind.bind, Except.bind, hplugs]
    rfl
  have hofChain : Snapshot.ofChain w b =
      .ok (Snapshot.chained (Snapshot.parts b []) (.float cx) (.float cy) []) := by
    rw [Snapshot.ofChain_eq, h.id, Value.toKey_text]
    have hcx : coordinate b 0 = .ok (.float cx) := by rw [coordinate, hp]; rfl
    have hcy : coordinate b 1 = .ok (.float cy) := by rw [coordinate, hp]; rfl
    simp only [Bind.bind, Except.bind, hchain, hblock, hcx, hcy]
    rfl
  rw [Snapshot.ofWorkspace, h.tops]
  simp [Bind.bind, Except.bind, hofChain]
  rfl

end Workspace

/-! ### Histories with few blocks -/

/-- A command takes a history to what its edit comes to. -/
theorem History.exists_command {v : Vocabulary} {w : Workspace} (h : History .journal v w)
    (c : Command) {P : Workspace → Prop} (he : Ends c.edit w (fun _ u => P u) fun _ u => P u) :
    ∃ u, History .journal v u ∧ P u := by
  have hc : History .journal v
      ((Call.command c).after .journal { workspace := w, audience := [] }).workspace :=
    .call h trivial
  rw [Call.workspace_after_command Audience.aloof_journal] at hc
  exact ⟨_, hc, he.stateAfter⟩

/-- So does the creation of a block under an id that is not in use. -/
theorem History.exists_created {v : Vocabulary} {w : Workspace} (h : History .journal v w)
    {type position : Value} {x : String} {given fields : List (Key × Value)} {d : Declaration}
    {coords : List Value} (hx : x ≠ "") (hl : x.length < 5)
    (hc : Edit.Creates w type (.text x) position given d fields coords) :
    History .journal v (w.insert x (Edit.newBlock x type d fields coords)) := by
  have hc' : History .journal v ((Call.create type (.text x) position given).after .journal
      { workspace := w, audience := [] }).workspace := .call h (w.admits_text hx hl)
  rw [Call.workspace_after_create Audience.aloof_journal] at hc'
  exact Edit.stateAfter_create hc ▸ hc'

/-- The block takes its place behind those that are there. -/
theorem History.exists_listed {v v' : Vocabulary} {w : Workspace} {muted : Nat}
    {es : List (Key × Block)} (h : History .journal v w) (hes : w.Listed v' muted es)
    {type position : Value} {x : String} {given fields : List (Key × Value)} {d : Declaration}
    {coords : List Value} (hx : x ≠ "") (hl : x.length < 5)
    (hc : Edit.Creates w type (.text x) position given d fields coords) :
    ∃ u, History .journal v u ∧
      u.Listed v' muted (Entries.put es (.text x) (Edit.newBlock x type d fields coords)) :=
  ⟨_, h.exists_created hx hl hc, hes.insert x _⟩

section

variable {v : Vocabulary} {type : Value} {x : String} {d : Declaration}
  {given fields : List (Key × Value)} (cx cy : Binary64) (hx : x ≠ "") (hl : x.length < 5)
  (hd : (do (Workspace.new v 0).vocabulary.get (← type.toKey)) = .ok d)
  (hf : Edit.filled type d given = .ok fields)

include hx hl hd hf

/-- There is a workspace with just one block. -/
theorem History.exists_lone : ∃ w, History .journal v w ∧
    w.vocabulary = (Workspace.new v 0).vocabulary ∧
      w.Lone x (Edit.newBlock x type d fields [.float cx, .float cy]) := by
  have hcreates : Edit.Creates (Workspace.new v 0) type (.text x) (.list [.float cx, .float cy])
      given d fields [.float cx, .float cy] := ⟨hd, hf, rfl, .inr (Table.find?_eq ..)⟩
  exact ⟨_, History.exists_created (.new 0) hx hl hcreates, rfl,
    Workspace.lone_insert v 0 x type d fields _⟩

/-- There is one where the block is turned off, or turned on in another way. -/
theorem History.exists_lone_switched {enabled : Value}
    (hne : (Value.bool true).same enabled = false) : ∃ w, History .journal v w ∧
      w.vocabulary = (Workspace.new v 0).vocabulary ∧ w.Lone x
        { Edit.newBlock x type d fields [.float cx, .float cy] with enabled } := by
  obtain ⟨w, hw, hv, hlone⟩ := exists_lone cx cy hx hl hd hf
  have hswitched := Edit.stateAfter_setEnabled hlone.block?_self hne
  obtain ⟨u, hu, rfl⟩ := hw.exists_command (.setEnabled (.text x) enabled) (P := (· = _))
    (Ends.of_stateAfter hswitched)
  exact ⟨_, hu, hv, hlone.edit (f := fun b => { b with enabled }) rfl rfl rfl rfl⟩

end

/-- A new block of the stock vocabulary that puts out a text. -/
def Edit.newLine (x : String) : Block :=
  newBlock x (.text "add_text") Vocabulary.addText [] [.float (.zero false), .float (.zero false)]

/-- There is a workspace with just one block that puts out a text. -/
theorem History.exists_line {x : String} (hx : x ≠ "") (hl : x.length < 5) :
    ∃ w, History .journal .stock w ∧ w.Lone x (Edit.newLine x) := by
  have hdeclared : (do (Workspace.new .stock 0).vocabulary.get (← (Value.text "add_text").toKey)) =
      .ok Vocabulary.addText := rfl
  have hfilled : Edit.filled (.text "add_text") Vocabulary.addText [] = .ok [] := rfl
  obtain ⟨w, hw, -, hlone⟩ := exists_lone (.zero false) (.zero false) hx hl hdeclared hfilled
  exact ⟨w, hw, hlone⟩

/-- A new text of the stock vocabulary. -/
def Edit.newText (x : String) : Block :=
  newBlock x (.text "text") Vocabulary.text [(.text "TEXT", .text "")]
    [.float (.zero false), .float (.zero false)]

/-- What the creation of a text comes to. -/
theorem Edit.creates_newText {w : Workspace} {x : String}
    (hv : w.vocabulary = (Workspace.new .stock 0).vocabulary) (hx : w.block? x = none) :
    Creates w (.text "text") (.text x) Snapshot.origin [] Vocabulary.text
      [(.text "TEXT", .text "")] [.float (.zero false), .float (.zero false)] :=
  ⟨by rw [hv]; rfl, rfl, rfl, .inr hx⟩

/-- There is a workspace with just one text. -/
theorem History.exists_text {x : String} (hx : x ≠ "") (hl : x.length < 5) :
    ∃ w, History .journal .stock w ∧ w.vocabulary = (Workspace.new .stock 0).vocabulary ∧
      w.Lone x (Edit.newText x) := by
  have hdeclared : (do (Workspace.new .stock 0).vocabulary.get (← (Value.text "text").toKey)) =
      .ok Vocabulary.text := rfl
  have hfilled : Edit.filled (.text "text") Vocabulary.text [] = .ok [(.text "TEXT", .text "")] := rfl
  exact exists_lone (.zero false) (.zero false) hx hl hdeclared hfilled

/-! ### A text that is plugged into a block -/

/-- The number one. -/
def Binary64.one : Binary64 :=
  .finite false (2 ^ 52) (-52) ⟨by decide, by decide, by decide, .inl (by decide)⟩

namespace Shelved

/-- A block that puts out a text. -/
def holder : Block := Edit.newBlock "a" (.text "add_text") Vocabulary.addText []
  [.float (.zero false), .float .one]

/-- A text, at a height. -/
def textAt (y : Binary64) : Block := Edit.newBlock "d" (.text "text") Vocabulary.text
  [(.text "TEXT", .text "")] [.float (.zero false), .float y]

/-- The text, plugged into the block that puts it out. -/
def laden (y : Binary64) : List (Key × Block) :=
  [(.text "a", { holder with inputs := [(.text "TEXT", .text "d")] }),
    (.text "d", { textAt y with parent := .text "a", parentInput := .text "TEXT" })]

theorem exists_laden (y : Binary64) :
    ∃ w, History .journal .stock w ∧ w.Listed .stock 0 (laden y) := by
  have hholder : Edit.Creates (Workspace.new .stock 0) (.text "add_text") (.text "a")
      (.list [.float (.zero false), .float .one]) [] Vocabulary.addText []
      [.float (.zero false), .float .one] := ⟨rfl, rfl, rfl, .inr (Table.find?_eq ..)⟩
  obtain ⟨w, hw, h⟩ := (History.new 0).exists_listed (Workspace.listed_new rfl 0) (by decide) (by decide) hholder
  have htext : Edit.Creates w (.text "text") (.text "d") (.list [.float (.zero false), .float y]) []
      Vocabulary.text [(.text "TEXT", .text "")] [.float (.zero false), .float y] :=
    ⟨by rw [h.vocabulary]; rfl, rfl, rfl, .inr (h.find?_eq _)⟩
  obtain ⟨w, hw, h⟩ := hw.exists_listed h (by decide) (by decide) htext
  have h : w.Listed .stock 0 [(.text "a", holder), (.text "d", textAt y)] := h
  have hbelow : w.hangsFrom (.text "d") (.text "a") = .ok false :=
    h.hangsFrom_loose (b := holder) rfl rfl rfl (by decide)
  exact hw.exists_command (.connectValue (.text "a") (.text "TEXT") (.text "d"))
    (h.ends_connectValue_free rfl rfl (h.declarationOf_eq rfl rfl) rfl rfl
      (h.declarationOf_eq rfl rfl) rfl rfl hbelow rfl rfl rfl fun _ _ hu => hu)

end Shelved

end Blockwork
