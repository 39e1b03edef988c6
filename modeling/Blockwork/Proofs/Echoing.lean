import Blockwork.Proofs.Likeness

/-!
# Echoes

A program shows nothing but what is reached from the blocks at the top, along chains and into the
sockets of blocks that are turned on, as far as what is plugged in is turned on itself.  A set of ids
is closed for a workspace when it holds with each id all that is reached from its block; workspaces
that agree on a closed set (`Workspace.Echoes`) have one program if their blocks at the top are of
that set, and whatever else is at the top adds nothing (`Workspace.Echoes.program_eq`).  Elsewhere
the workspaces may differ.
-/

namespace Blockwork

open Forest (Lineage)

/-- Chains to which nothing is contributed may be left out before all of them are looked at. -/
theorem filter_mapM_filter {m : Type → Type} [Monad m] [LawfulMonad m] {α β : Type}
    {f : α → m (List β)} {p : α → Bool} {as : List α} (h : ∀ a ∈ as, p a = false → f a = pure []) :
    (do return (← (as.filter p).mapM f).filter fun bs : List β => !bs.isEmpty) =
      (do return (← as.mapM f).filter fun bs : List β => !bs.isEmpty) := by
  induction as with
  | nil => rfl
  | cons a as ih =>
      have ih := ih fun a' ha => h a' (List.mem_cons_of_mem _ ha)
      rw [List.mapM_cons]
      cases hp : p a with
      | false =>
          rw [List.filter_cons_of_neg (by rw [hp]; exact Bool.false_ne_true), ih,
            h a List.mem_cons_self hp]
          simp
      | true =>
          rw [List.filter_cons_of_pos hp, List.mapM_cons]
          simp only [bind_assoc, pure_bind] at ih ⊢
          refine congrArg (f a >>= ·) (funext fun bs => ?_)
          cases hb : bs.isEmpty with
          | true => simpa [hb] using ih
          | false =>
              have hcons := congrArg (fun r => (do return bs :: (← r) : m (List (List β)))) ih
              simpa [hb] using hcons

/-- Whether two blocks are turned on alike, and are then of one type with the same fields. -/
def Block.Echoes (b c : Block) : Prop :=
  c.isEnabled = b.isEnabled ∧ (b.isEnabled = true → c.type = b.type ∧ c.fields = b.fields)

namespace Workspace

open Compile

variable {w u : Workspace} {x y : String} {b c : Block}

/-- What is plugged into a socket and turned on. -/
def plugged? (w : Workspace) (x name : String) : Option String :=
  (w.child? x (some name)).filter fun y => (w.block? y).any (·.isEnabled)

theorem exists_plugged {name : String} (h : w.plugged? x name = some y) :
    ∃ c, w.block? y = some c ∧ c.isEnabled = true := by
  obtain ⟨-, hon⟩ := Option.filter_eq_some_iff.mp h
  cases hc : w.block? y with
  | none => rw [hc] at hon; cases hon
  | some c => exact ⟨c, rfl, by rwa [hc] at hon⟩

theorem Sound.occupant_eq_plugged (h : w.Sound) (hb : w.block? x = some b) (name : String) :
    occupant w b (.text name) = .ok ((w.plugged? x name).bind w.block?) := by
  rw [h.occupant_eq hb, plugged?]
  cases hx : w.child? x (some name) with
  | none => rfl
  | some y =>
      obtain ⟨c, hc⟩ := Option.isSome_iff_exists.mp (h.isSome_child hx)
      rw [Option.bind_some, Option.filter_some, hc, Option.filter_some, Option.any_some]
      split
      · rw [Option.bind_some, hc]
      · rfl

/-- Sockets with other names than texts are empty. -/
theorem Sound.occupant_eq_none (h : w.Sound) (hb : w.block? x = some b) {k : Key}
    (hk : ∀ name, k ≠ .text name) : occupant w b k = .ok none := by
  have hnone : Entries.get? b.inputs k = none := by
    rw [Entries.get?, Option.map_eq_none_iff, List.find?_eq_none]
    intro e he hek
    obtain ⟨name, y, rfl⟩ := (h.shaped x b hb).inputs e he
    exact hk name (Key.text_beq_iff.mp hek)
  rw [occupant, hnone]
  rfl

/-- Whether two workspaces agree on a set of ids that is closed: on the chains and on what is plugged
into blocks that are turned on. -/
structure Echoes (S : String → Prop) (w u : Workspace) : Prop where
  vocabulary : u.vocabulary = w.vocabulary
  block? : ∀ {x}, S x → Option.Rel Block.Echoes (w.block? x) (u.block? x)
  next? : ∀ {x}, S x → u.next? x = w.next? x
  plugged? : ∀ {x b}, S x → w.block? x = some b → b.isEnabled = true → ∀ name,
    u.plugged? x name = w.plugged? x name
  follows : ∀ {x y}, S x → w.next? x = some y → S y
  reaches : ∀ {x y b name}, S x → w.block? x = some b → b.isEnabled = true →
    w.plugged? x name = some y → S y

/-- Whether two blocks are those of two workspaces under one id of a set. -/
def Shared (S : String → Prop) (w u : Workspace) (b c : Block) : Prop :=
  ∃ x, S x ∧ w.block? x = some b ∧ u.block? x = some c

/-- Whether they are turned on besides. -/
def Echoed (S : String → Prop) (w u : Workspace) (b c : Block) : Prop :=
  w.Shared S u b c ∧ b.isEnabled = true

/-- The blocks of two workspaces along the same ids. -/
theorem forall₂_shared {S : String → Prop} {m : List String} {es fs : List (Key × Block)}
    (hm : ∀ y ∈ m, S y)
    (hes : List.Forall₂ (fun y e => e.1 = .text y ∧ w.block? y = some e.2) m es)
    (hfs : List.Forall₂ (fun y e => e.1 = .text y ∧ u.block? y = some e.2) m fs) :
    List.Forall₂ (w.Shared S u) (es.map (·.2)) (fs.map (·.2)) := by
  induction hes generalizing fs with
  | nil =>
      obtain rfl := List.forall₂_nil_left_iff.mp hfs
      exact .nil
  | @cons y e m es he _ ih =>
      obtain ⟨f, fs, hf, hrest, rfl⟩ := List.forall₂_cons_left_iff.mp hfs
      exact .cons ⟨y, hm y List.mem_cons_self, he.2, hf.2⟩
        (ih (fun z hz => hm z (List.mem_cons_of_mem _ hz)) hrest)

namespace Echoes

variable {S : String → Prop} (h : w.Echoes S u)

include h

theorem echoes (hbc : w.Shared S u b c) : b.Echoes c := by
  obtain ⟨x, hx, hb, hc⟩ := hbc
  have hrel := h.block? hx
  rw [hb, hc] at hrel
  cases hrel with
  | some hbc => exact hbc

theorem exists_shared (hx : S x) (hb : w.block? x = some b) :
    ∃ c, u.block? x = some c ∧ w.Shared S u b c := by
  have hrel := h.block? hx
  rw [hb] at hrel
  generalize hc : u.block? x = o at hrel
  cases hrel with
  | some _ => exact ⟨_, rfl, x, hx, hb, hc⟩

variable (hw : w.Sound) (hu : u.Sound)

include hw hu

/-- **Where workspaces agree on a closed set, the blocks of the set have the same plugged into
them.** -/
theorem concurs : w.Concurs (w.Echoed S u) u where
  vocabulary := h.vocabulary
  id hbc := by
    obtain ⟨⟨x, -, hb, hc⟩, -⟩ := hbc
    rw [hw.id_eq hb, hu.id_eq hc]
  type hbc := ((h.echoes hbc.1).2 hbc.2).1
  occupant {b c} hbc name := by
    obtain ⟨⟨x, hx, hb, hc⟩, hon⟩ := hbc
    by_cases hname : ∃ s, name = .text s
    · obtain ⟨s, rfl⟩ := hname
      rw [hw.occupant_eq_plugged hb, hu.occupant_eq_plugged hc, h.plugged? hx hb hon]
      refine .ok ?_
      cases hy : w.plugged? x s with
      | none => exact .none
      | some y =>
          obtain ⟨d, hd, hdon⟩ := exists_plugged hy
          obtain ⟨e, hue, hde⟩ := h.exists_shared (h.reaches hx hb hon hy) hd
          rw [Option.bind_some, Option.bind_some, hd, hue]
          exact .some ⟨hde, hdon⟩
    · have hname : ∀ s, name ≠ .text s := fun s he => hname ⟨s, he⟩
      rw [hw.occupant_eq_none hb hname, hu.occupant_eq_none hc hname]
      exact .ok .none

variable {t : Compiler} (ht : t.Respects (w.Echoed S u))

include ht

/-- Chains of the set contribute the same. -/
theorem chain_eq (hbc : w.Shared S u b c) : Compile.chain t w b = Compile.chain t u c := by
  obtain ⟨x, hx, hb, hc⟩ := hbc
  obtain ⟨m, es, hm, hes, hall⟩ := hw.exists_chain (x := x) (by rw [hb]; rfl)
  obtain ⟨m', fs, hm', hfs, hall'⟩ := hu.exists_chain (x := x) (by rw [hc]; rfl)
  have hin : ∀ y ∈ m, S y := fun y hy => by
    have hxy := hm.mem_iff.mp hy
    induction hxy with
    | refl => exact hx
    | tail hxz hzy ih => exact h.follows (ih (hm.mem_iff.mpr hxz)) hzy
  obtain rfl := (hm.congr fun y hy => h.next? (hin y hy)).unique hm'
  have hblocks := forall₂_shared hin hall hall'
  have hwalk : (do w.chain (← b.id.toKey)) = .ok es := by rw [hw.id_eq hb]; exact hes
  have hwalk' : (do u.chain (← c.id.toKey)) = .ok fs := by rw [hu.id_eq hc]; exact hfs
  unfold Compile.chain
  rw [hwalk, hwalk']
  simp only [Compile.ofExcept, pure_bind]
  have hon : List.Forall₂ (w.Echoed S u) ((es.map (·.2)).filter (·.isEnabled))
      ((fs.map (·.2)).filter (·.isEnabled)) := by
    have hfilter := List.rel_filter (p := Block.isEnabled) (q := Block.isEnabled)
      (fun b c hbc => Eq.to_iff (congrArg (· = true) (h.echoes (hbc : w.Shared S u b c)).1.symm)) hblocks
    have hall := (List.forall₂_and_left _ _).mpr
      ⟨fun b hb => (List.mem_filter.mp hb).2, hfilter⟩
    exact hall.imp fun _ _ hbc => ⟨hbc.2, hbc.1⟩
  exact mapM_eq_of_forall₂ (m := Drafting) (hon.imp fun _ _ => (h.concurs hw hu).fragment_eq ht)

/-- **Workspaces that agree on a closed set have one program**, if the blocks at the top of the one
are of that set, and so are those of the other one but for some that contribute nothing. -/
theorem program_eq {bs cs : List Block} (hbs : w.tops = .ok bs) (hcs : u.tops = .ok cs)
    {p : Block → Bool} (hshared : List.Forall₂ (w.Shared S u) bs (cs.filter p))
    (hrest : ∀ c ∈ cs, p c = false → Compile.chain t u c = pure []) : t.program u = t.program w := by
  have hchains : bs.mapM (Compile.chain t w) = (cs.filter p).mapM (Compile.chain t u) :=
    mapM_eq_of_forall₂ (m := Drafting) (hshared.imp fun b c hbc => h.chain_eq hw hu ht hbc)
  have hall : chains t u = chains t w := by
    unfold chains
    rw [hbs, hcs]
    simp only [Compile.ofExcept, pure_bind]
    rw [hchains]
    exact (filter_mapM_filter (m := Drafting) hrest).symm
  rw [Compiler.program, Compiler.program, hall]

end Echoes

end Workspace

end Blockwork
