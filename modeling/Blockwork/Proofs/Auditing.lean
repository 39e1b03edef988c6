import Blockwork.Proofs.Outlining
import Blockwork.Workspace.Audit

/-!
# What audits find

An audit finds nothing just when each block is in order and no cycle of links is found
(`Workspace.audit_eq_nil_iff`): its type is declared, what its sockets hold is there and fits, and
what follows it is there (`Workspace.InOrder`).  It does not ask how often a block is linked to.  Nor
does an audit always come to an end with what it has found: the type of a block that is plugged in is
looked up with its socket, so where that type is not declared the audit fails, whatever it would find
of the block itself (`Workspace.audit_fails_of_plugged`).
-/

namespace Blockwork

/-- All answers are lists without items just when each of them is. -/
theorem mapM_flatten_eq_nil_iff {ε α β : Type} {f : α → Except ε (List β)} {as : List α} :
    (∃ bs, as.mapM f = .ok bs ∧ bs.flatten = []) ↔ ∀ a ∈ as, f a = .ok [] := by
  constructor
  · rintro ⟨bs, hbs, hnil⟩ a ha
    obtain ⟨b, hb, hab⟩ := exists_of_mem_forall₂ (forall₂_of_mapM hbs).flip ha
    rw [← List.flatten_eq_nil_iff.mp hnil b hb]
    exact hab
  · intro h
    obtain ⟨bs, hbs, hall⟩ := exists_mapM (P := fun _ b => b = []) fun a ha => ⟨[], h a ha, rfl⟩
    refine ⟨bs, hbs, List.flatten_eq_nil_iff.mpr fun b hb => ?_⟩
    obtain ⟨a, -, hb⟩ := exists_of_mem_forall₂ hall hb
    exact hb

theorem exists_error_of_mapM {ε α β : Type} {f : α → Except ε β} {as : List α} {a : α} {e : ε}
    (ha : a ∈ as) (he : f a = .error e) : ∃ e', as.mapM f = .error e' := by
  cases hbs : as.mapM f with
  | error e' => exact ⟨e', rfl⟩
  | ok bs =>
      obtain ⟨b, -, hb⟩ := exists_of_mem_forall₂ (forall₂_of_mapM hbs).flip ha
      cases he.symm.trans hb

namespace Workspace

variable {w : Workspace} {b c : Block} {d : Declaration} {name : Key} {child : Value}

/-- Whether what a socket of a block holds is there, and its output fits into the socket. -/
def Fitted (w : Workspace) (d : Declaration) (name : Key) (child : Value) : Prop :=
  ∃ k c s e, child.toKey = .ok k ∧ w.find? k = some c ∧ d.input? (.ofKey name) = some s ∧
    w.declarationOf c = .ok e ∧ e.fits s = .ok true

/-- Whether what follows a block is there. -/
def Followed (w : Workspace) (b : Block) : Prop :=
  b.next = .null ∨ ∃ k, b.next.toKey = .ok k ∧ w.contains k = true

/-- Whether a block is of a declared type, and what its links lead to is there and fits. -/
structure InOrder (w : Workspace) (b : Block) : Prop where
  bound : ∃ k d, b.type.toKey = .ok k ∧ w.vocabulary.find? k = some d ∧
    ∀ e ∈ b.inputs, w.Fitted d e.1 e.2
  followed : w.Followed b

theorem auditInput_eq_nil_iff : w.auditInput b d name child = .ok [] ↔ w.Fitted d name child := by
  unfold auditInput
  constructor
  · intro h
    obtain ⟨k, hk, h⟩ := exists_of_bind_ok h
    split at h
    · cases h
    rename_i c hc
    split at h
    · cases h
    rename_i s hs
    obtain ⟨e, he, h⟩ := exists_of_bind_ok h
    obtain ⟨fits, hfits, h⟩ := exists_of_bind_ok h
    cases fits with
    | true => exact ⟨k, c, s, e, hk, hc, hs, he, hfits⟩
    | false => cases h
  · rintro ⟨k, c, s, e, hk, hc, hs, he, hfits⟩
    simp only [hk, hc, hs, he, hfits, Bind.bind, Except.bind]
    rfl

theorem auditNext_eq_nil_iff : w.auditNext b = .ok [] ↔ w.Followed b := by
  unfold auditNext Followed
  split
  · rename_i hnull
    exact iff_of_true rfl (.inl hnull)
  · rename_i hlink
    rw [or_iff_right hlink]
    constructor
    · intro h
      obtain ⟨k, hk, h⟩ := exists_of_bind_ok h
      split at h
      · rename_i hthere
        exact ⟨k, hk, hthere⟩
      · cases h
    · rintro ⟨k, hk, hthere⟩
      simp only [hk, hthere, Bind.bind, Except.bind, if_true]
      rfl

theorem auditBlock_eq_nil_iff : w.auditBlock b = .ok [] ↔ w.InOrder b := by
  unfold auditBlock
  constructor
  · intro h
    obtain ⟨k, hk, h⟩ := exists_of_bind_ok h
    split at h
    · cases h
    rename_i d hd
    obtain ⟨found, hfound, h⟩ := exists_of_bind_ok h
    obtain ⟨rest, hrest, h⟩ := exists_of_bind_ok h
    obtain ⟨hnil, rfl⟩ := List.append_eq_nil_iff.mp (Except.ok.inj h)
    refine ⟨⟨k, d, hk, hd, fun e he => ?_⟩, auditNext_eq_nil_iff.mp hrest⟩
    exact auditInput_eq_nil_iff.mp (mapM_flatten_eq_nil_iff.mp ⟨found, hfound, hnil⟩ e he)
  · rintro ⟨⟨k, d, hk, hd, hfitted⟩, hfollowed⟩
    obtain ⟨found, hfound, hnil⟩ :=
      (mapM_flatten_eq_nil_iff (f := fun e : Key × Value => w.auditInput b d e.1 e.2)).mpr
        fun e he => auditInput_eq_nil_iff.mpr (hfitted e he)
    simp only [hk, hd, hfound, auditNext_eq_nil_iff.mpr hfollowed, hnil, Bind.bind, Except.bind]
    rfl

/-- **An audit finds nothing just when each block is in order and no cycle is found.** -/
theorem audit_eq_nil_iff :
    w.audit = .ok [] ↔ (∀ b ∈ w.blocks, w.InOrder b) ∧ w.hasCycle = .ok false := by
  unfold audit
  constructor
  · intro h
    obtain ⟨found, hfound, h⟩ := exists_of_bind_ok h
    obtain ⟨cyclic, hcyclic, h⟩ := exists_of_bind_ok h
    obtain ⟨hnil, hnone⟩ := List.append_eq_nil_iff.mp (Except.ok.inj h)
    refine ⟨fun b hb => ?_, ?_⟩
    · exact auditBlock_eq_nil_iff.mp (mapM_flatten_eq_nil_iff.mp ⟨found, hfound, hnil⟩ b hb)
    · cases cyclic with
      | true => cases hnone
      | false => exact hcyclic
  · rintro ⟨horder, hcyclic⟩
    obtain ⟨found, hfound, hnil⟩ := (mapM_flatten_eq_nil_iff (f := w.auditBlock)).mpr
      fun b hb => auditBlock_eq_nil_iff.mpr (horder b hb)
    simp only [hfound, hcyclic, hnil, Bind.bind, Except.bind]
    rfl

/-- **An audit fails where a block that is plugged into a socket is of no declared type.** -/
theorem audit_fails_of_plugged {k : Key} {s : Socket} {e : Error} (hb : b ∈ w.blocks)
    (hd : w.declarationOf b = .ok d) (hbound : (name, child) ∈ b.inputs)
    (hk : child.toKey = .ok k) (hc : w.find? k = some c) (hs : d.input? (.ofKey name) = some s)
    (he : w.declarationOf c = .error e) : ∃ e', w.audit = .error e' := by
  have hinput : w.auditInput b d name child = .error e := by
    simp only [auditInput, hk, hc, hs, he, Bind.bind, Except.bind]
  obtain ⟨e₁, hinputs⟩ := exists_error_of_mapM
    (f := fun e : Key × Value => w.auditInput b d e.1 e.2) hbound hinput
  have hblock : w.auditBlock b = .error e₁ := by
    obtain ⟨t, ht, hfind⟩ := exists_of_bind_ok hd
    unfold Vocabulary.get at hfind
    split at hfind
    · rename_i d' hd'
      obtain rfl := Except.ok.inj hfind
      simp only [auditBlock, ht, hd', hinputs, Bind.bind, Except.bind]
    · cases hfind
  obtain ⟨e₂, hblocks⟩ := exists_error_of_mapM hb hblock
  refine ⟨e₂, ?_⟩
  simp only [audit, hblocks, Bind.bind, Except.bind]

end Workspace

end Blockwork
