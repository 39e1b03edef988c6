import Blockwork.Proofs.Compiling
import Blockwork.Proofs.Outlining
import Blockwork.Proofs.Twins
import Blockwork.Session.Cycle

/-!
# Likeness

Documents and programs are made of few things that are read of blocks: their ids, types and fields,
whether they are turned on, which block follows, and which blocks are found in their sockets
(`Block.Like`).  So workspaces with blocks that are like each other under each key have one document
(`Workspace.LikeBy.document_eq`) and one program (`Workspace.LikeBy.program_eq`), as long as the
blocks at the top come in one order, and the rules of the compiler make the same of blocks that are
like each other (`Compiler.Respects`).
-/

namespace Blockwork

theorem Except.Twin.eq {ε α : Type} {r r' : Except ε α} (h : Except.Twin Eq Eq r r') : r = r' := by
  cases h with
  | ok h => rw [h]
  | error h => rw [h]

/-- An answer goes together with itself. -/
theorem Except.Twin.same {ε α : Type} (r : Except ε α) : Except.Twin Eq Eq r r := .refl (fun _ => rfl) r

theorem mapM_eq_of_forall₂ {m : Type → Type} [Monad m] [LawfulMonad m] {α β γ : Type} {f : α → m γ}
    {g : β → m γ} {as : List α} {bs : List β} (h : List.Forall₂ (fun a b => f a = g b) as bs) :
    as.mapM f = bs.mapM g := by
  induction h with
  | nil => rfl
  | cons hr _ ih => rw [List.mapM_cons, List.mapM_cons, hr, ih]

/-! ### Blocks -/

/-- Whether the same is read of two blocks, but for where they are and what they hang from. -/
structure Block.Like (b c : Block) : Prop where
  id : c.id = b.id
  type : c.type = b.type
  fields : c.fields = b.fields
  enabled : c.isEnabled = b.isEnabled
  next : c.next = b.next
  inputs : ∀ name, Entries.get? c.inputs name = Entries.get? b.inputs name

/-- Whether the rules of a compiler make the same of blocks between which a relation holds. -/
def Compiler.Respects (t : Compiler) (R : Block → Block → Prop) : Prop :=
  ∀ e ∈ t.rules, ∀ b c plug, R b c → e.2 ⟨c, plug⟩ = e.2 ⟨b, plug⟩

namespace Block.Like

variable {b c : Block}

theorem parts (h : b.Like c) (inputs : List (Key × Value)) :
    Snapshot.parts c inputs = Snapshot.parts b inputs := by
  unfold Snapshot.parts
  rw [h.id, h.type, h.fields, h.enabled]

theorem plugs (h : b.Like c) (d : Declaration) : Snapshot.plugs c d = Snapshot.plugs b d := by
  unfold Snapshot.plugs
  simp only [h.inputs]

end Block.Like

/-! ### Workspaces -/

namespace Workspace

/-- Whether, where a relation holds between blocks of two workspaces, these are of one id and type, and
it holds between what is plugged into them and turned on. -/
structure Concurs (R : Block → Block → Prop) (w u : Workspace) : Prop where
  vocabulary : u.vocabulary = w.vocabulary
  id : ∀ {b c}, R b c → c.id = b.id
  type : ∀ {b c}, R b c → c.type = b.type
  occupant : ∀ {b c}, R b c → ∀ name,
    Except.Twin Eq (Option.Rel R) (Compile.occupant w b name) (Compile.occupant u c name)

namespace Concurs

variable {w u : Workspace} {R : Block → Block → Prop} {b c : Block} (h : w.Concurs R u)
  {t : Compiler} (ht : t.Respects R)

include h ht

/-- **The same is made of blocks in workspaces that concur.** -/
theorem outcome_eq (n : Nat) (hb : R b c) : Compile.outcome t u n c = Compile.outcome t w n b := by
  have hdeclared {b c : Block} (hb : R b c) : u.declarationOf c = w.declarationOf b := by
    rw [declarationOf, declarationOf, h.vocabulary, h.type hb]
  induction n generalizing b c with
  | zero => rfl
  | succ n ih =>
      have hoperand : Compile.operand t u n c = Compile.operand t w n b := by
        funext name order
        have hoccupant := h.occupant hb name
        unfold Compile.operand
        generalize Compile.occupant w b name = o at hoccupant
        generalize Compile.occupant u c name = o' at hoccupant
        cases hoccupant with
        | error he => rw [he]; rfl
        | ok ho =>
            cases ho with
            | none => simp only [Compile.ofExcept, pure_bind, Compile.fallback, hdeclared hb]
            | some hd => simp only [Compile.ofExcept, pure_bind, ih hd, h.type hd, h.id hd]
      rw [Compile.outcome_succ, Compile.outcome_succ, hoperand, h.type hb]
      congr 1
      funext k
      unfold Compile.ruled
      rw [h.type hb, h.id hb]
      split
      · rfl
      · rename_i rule hrule
        obtain ⟨j, hj, -⟩ := Entries.exists_mem_of_get? hrule
        exact ht _ hj b c _ hb

theorem fragment_eq (hb : R b c) : Compile.fragment t w b = Compile.fragment t u c := by
  unfold Compile.fragment
  rw [h.outcome_eq ht Compile.nestingLimit hb, h.id hb, h.type hb]

end Concurs

/-- Whether under each key two workspaces have blocks between which a relation holds, one that the
likeness of blocks follows from. -/
structure LikeBy (R : Block → Block → Prop) (w u : Workspace) : Prop where
  like : ∀ {b c}, R b c → b.Like c
  vocabulary : u.vocabulary = w.vocabulary
  find? : ∀ k, Option.Rel R (w.find? k) (u.find? k)

variable {w u : Workspace}

theorem isSome_find?_iff (w : Workspace) (k : Key) :
    (w.find? k).isSome ↔ k.name ∈ w.entries.map (·.1.name) := by
  rw [Workspace.find?, Table.find?_eq, Entries.get?, Option.isSome_map, List.find?_isSome, List.mem_map]
  exact exists_congr fun e => and_congr_right fun _ => Key.beq_iff_name _ _

/-- Workspaces with blocks under the same keys have as many blocks. -/
theorem size_eq_of_isSome (h : ∀ k, (w.find? k).isSome = (u.find? k).isSome) : u.size = w.size := by
  have hmem {w u : Workspace} (h : ∀ k, (w.find? k).isSome = (u.find? k).isSome) {n : Key.Name}
      (hn : n ∈ w.entries.map (·.1.name)) : n ∈ u.entries.map (·.1.name) := by
    obtain ⟨e, -, rfl⟩ := List.mem_map.mp hn
    exact (isSome_find?_iff u e.1).mp (h e.1 ▸ (isSome_find?_iff w e.1).mpr hn)
  have hperm : (w.entries.map (·.1.name)).Perm (u.entries.map (·.1.name)) :=
    (List.perm_ext_iff_of_nodup w.table.distinct u.table.distinct).mpr fun n =>
      ⟨hmem h, hmem fun k => (h k).symm⟩
  have hlength := hperm.length_eq
  rw [List.length_map, List.length_map] at hlength
  rw [size, size, Table.size_eq, Table.size_eq]
  exact hlength.symm

namespace LikeBy

variable {R : Block → Block → Prop} {b c : Block} (h : w.LikeBy R u)

include h

theorem declarationOf_eq (hb : R b c) : u.declarationOf c = w.declarationOf b := by
  rw [declarationOf, declarationOf, h.vocabulary, (h.like hb).type]

theorem size_eq : u.size = w.size := by
  refine size_eq_of_isSome fun k => ?_
  have hrel := h.find? k
  generalize w.find? k = b at hrel
  generalize u.find? k = c at hrel
  cases hrel <;> rfl

/-! ### Chains -/

theorem twin_chainFrom (n : Nat) (k : Key) :
    Except.Twin Eq (List.Forall₂ fun e f => e.1 = f.1 ∧ R e.2 f.2) (w.chainFrom n k)
      (u.chainFrom n k) := by
  induction n generalizing k with
  | zero => exact .ok .nil
  | succ n ih =>
      have hrel := h.find? k
      unfold chainFrom
      generalize w.find? k = b at hrel
      generalize u.find? k = c at hrel
      cases hrel with
      | none => exact .ok .nil
      | some hbc =>
          dsimp only
          rw [(h.like hbc).next]
          split
          · refine (Except.Twin.same _).bind ?_
            rintro j _ rfl
            exact (ih j).bind fun _ _ hall => .ok (.cons ⟨rfl, hbc⟩ hall)
          · exact .ok (.cons ⟨rfl, hbc⟩ .nil)

theorem twin_chain (k : Key) : Except.Twin Eq (List.Forall₂ fun e f => e.1 = f.1 ∧ R e.2 f.2)
    (w.chain k) (u.chain k) := by
  unfold chain
  rw [h.size_eq]
  exact h.twin_chainFrom _ k

/-! ### Documents -/

theorem ofBlock_eq (n : Nat) (hb : R b c) : Snapshot.ofBlock u n c = Snapshot.ofBlock w n b := by
  induction n generalizing b c with
  | zero => rfl
  | succ n ih =>
      have hinput : Snapshot.inputAt u n = Snapshot.inputAt w n := by
        funext p
        unfold Snapshot.inputAt
        cases p.2.toKey with
        | error e => rfl
        | ok k =>
            have hrel := h.find? k
            simp only [Bind.bind, Except.bind]
            generalize w.find? k = b at hrel
            generalize u.find? k = c at hrel
            cases hrel with
            | none => rfl
            | some hbc => simp only [ih hbc]
      rw [Snapshot.ofBlock_succ, Snapshot.ofBlock_succ, h.declarationOf_eq hb, hinput]
      simp only [(h.like hb).plugs, (h.like hb).parts]

/-- What is written of a chain is the same, where the first blocks are in one place. -/
theorem ofChain_eq (hb : R b c) (hp : c.position = b.position) :
    Snapshot.ofChain w b = Snapshot.ofChain u c := by
  rw [Snapshot.ofChain_eq, Snapshot.ofChain_eq, h.ofBlock_eq Snapshot.nestingLimit hb, (h.like hb).id]
  unfold coordinate
  rw [hp]
  refine ((Except.Twin.same _).bind fun k j hk => ?_).eq
  obtain rfl := hk
  refine (h.twin_chain k).bind fun es fs hall => ?_
  have htail : List.Forall₂ (fun e f => e.1 = f.1 ∧ R e.2 f.2) es.tail fs.tail := by
    cases hall with
    | nil => exact .nil
    | cons _ hrest => exact hrest
  have hitems : Snapshot.itemsOf w es.tail = Snapshot.itemsOf u fs.tail :=
    mapM_eq_of_forall₂ (htail.imp fun _ _ hef => by rw [h.ofBlock_eq _ hef.2])
  rw [hitems]
  exact .same _

variable (htops : Except.Twin Eq (List.Forall₂ fun b c => R b c ∧ c.position = b.position)
  w.tops u.tops)

include htops

/-- **Workspaces that are like each other have one document**, if the blocks at the top come in one
order. -/
theorem document_eq : Snapshot.ofWorkspace u = Snapshot.ofWorkspace w := by
  refine (htops.bind fun bs cs hbs => ?_).eq.symm
  have hchains : bs.mapM (Snapshot.ofChain w) = cs.mapM (Snapshot.ofChain u) :=
    mapM_eq_of_forall₂ (hbs.imp fun b c hb => h.ofChain_eq hb.1 hb.2)
  rw [hchains]
  exact .same _

omit htops

/-! ### Programs -/

theorem twin_occupant (hb : R b c) (name : Key) :
    Except.Twin Eq (Option.Rel R) (Compile.occupant w b name) (Compile.occupant u c name) := by
  unfold Compile.occupant
  rw [(h.like hb).inputs]
  dsimp only
  split
  · refine (Except.Twin.same _).bind ?_
    rintro k _ rfl
    have hrel := h.find? k
    generalize w.find? k = b at hrel
    generalize u.find? k = c at hrel
    refine .ok ?_
    cases hrel with
    | none => exact .none
    | some hbc =>
        rw [Option.filter_some, Option.filter_some, (h.like hbc).enabled]
        split
        · exact .some hbc
        · exact .none
  · exact .ok .none

theorem concurs : w.Concurs R u where
  vocabulary := h.vocabulary
  id hb := (h.like hb).id
  type hb := (h.like hb).type
  occupant := h.twin_occupant

theorem chain_eq {t : Compiler} (ht : t.Respects R) (hb : R b c) :
    Compile.chain t w b = Compile.chain t u c := by
  have hlinked : Except.Twin Eq (List.Forall₂ fun e f : Key × Block => e.1 = f.1 ∧ R e.2 f.2)
      (do w.chain (← b.id.toKey)) (do u.chain (← c.id.toKey)) := by
    rw [(h.like hb).id]
    refine (Except.Twin.same _).bind fun k j hk => ?_
    exact hk ▸ h.twin_chain k
  unfold Compile.chain
  generalize (do w.chain (← b.id.toKey)) = r at hlinked
  generalize (do u.chain (← c.id.toKey)) = r' at hlinked
  cases hlinked with
  | error he => rw [he]; rfl
  | ok hall =>
      simp only [Compile.ofExcept, pure_bind]
      have hon := List.rel_filter (p := Block.isEnabled) (q := Block.isEnabled)
        (fun b c hd => Eq.to_iff (congrArg (· = true) (h.like (hd : R b c)).enabled.symm))
        (List.forall₂_map_left_iff.mpr (List.forall₂_map_right_iff.mpr (hall.imp fun _ _ h => h.2)))
      exact mapM_eq_of_forall₂ (m := Drafting) (hon.imp fun _ _ => h.concurs.fragment_eq ht)

include htops

/-- **Workspaces that are like each other have one program**, if the blocks at the top come in one
order, and the rules make the same of their blocks. -/
theorem program_eq {t : Compiler} (ht : t.Respects R) : t.program u = t.program w := by
  unfold Compiler.program Compile.chains
  generalize w.tops = r at htops
  generalize u.tops = r' at htops
  cases htops with
  | error he => rw [he]; rfl
  | @ok bs cs hall =>
      have hchains : bs.mapM (Compile.chain t w) = cs.mapM (Compile.chain t u) :=
        mapM_eq_of_forall₂ (hall.imp fun b c hb => h.chain_eq ht hb.1)
      simp only [Compile.ofExcept, pure_bind, hchains]

/-- So have they one text of it. -/
theorem prepare_eq {t : Compiler} (ht : t.Respects R) :
    Session.prepare t u = Session.prepare t w := by
  rw [Session.prepare, Session.prepare, h.program_eq htops ht]

end LikeBy

end Workspace

end Blockwork
