import Blockwork.Proofs.Singles

/-!
# Intact workspaces

What soundness says about the blocks as they are stored (`Workspace.Intact`): under which keys they
stand, what their links hold, which declarations the blocks at both ends of a link have, and that no
walk along the links comes back to where it began.
-/

namespace Blockwork

open Relation (TransGen)

namespace Workspace

variable {w : Workspace}

/-- Whether a block has a link to another one, in a socket or behind it. -/
def Leads (w : Workspace) (k j : Key) : Prop :=
  ∃ b, w.find? k = some b ∧ Value.ofKey j ∈ b.targets

/-- What holds of the stored blocks. -/
structure Intact (w : Workspace) : Prop where
  /-- Each block stands under its own id, which is a text and not empty. -/
  stored : ∀ k b, w.find? k = some b → ∃ x, x ≠ "" ∧ k = .text x ∧ b.id = .ofKey k
  /-- A socket holds a block just when this one says that it is in the socket. -/
  plugged : ∀ (p s : Key) (c : Value), s ≠ .null →
    ((∃ b, w.find? p = some b ∧ Entries.get? b.inputs s = some c) ↔
      ∃ k d, c = .ofKey k ∧ w.find? k = some d ∧ d.parent = .ofKey p ∧ d.parentInput = .ofKey s)
  /-- A block is behind another one just when it says so. -/
  followed : ∀ (p : Key) (c : Value), p ≠ .null → c ≠ .null →
    ((∃ b, w.find? p = some b ∧ b.next = c) ↔
      ∃ k d, c = .ofKey k ∧ w.find? k = some d ∧ d.parent = .ofKey p ∧ d.parentInput = .null)
  /-- What a socket holds gives a value that fits into it. -/
  fitting : ∀ p b s v, w.find? p = some b → Entries.get? b.inputs s = some v →
    ∃ d socket k c e, w.declarationOf b = .ok d ∧ d.input? (.ofKey s) = some socket ∧
      v = .ofKey k ∧ w.find? k = some c ∧ w.declarationOf c = .ok e ∧ e.isValue = true ∧
      e.fits socket = .ok true
  /-- A block that is followed by another one can be, and that one can follow. -/
  joined : ∀ p b, w.find? p = some b → b.next ≠ .null →
    ∃ d k c e, w.declarationOf b = .ok d ∧ b.next = .ofKey k ∧ w.find? k = some c ∧
      w.declarationOf c = .ok e ∧ d.next = true ∧ e.previous = true
  /-- No block is reached from itself. -/
  acyclic : ∀ k, ¬ TransGen w.Leads k k

end Workspace

namespace Value

theorem ofKey_eq_text {k : Key} {x : String} (h : ofKey k = .text x) : k = .text x := by
  cases k <;> cases h
  rfl

theorem ofKey_eq_null {k : Key} (h : ofKey k = .null) : k = .null := by
  cases k <;> cases h
  rfl

end Value

namespace Workspace.Sound

variable {w : Workspace} (h : w.Sound)

include h

/-- A block under a text, and what it says about where it hangs. -/
theorem seat_iff {x p : String} {s : Slot} :
    w.seat? x = some (p, s) ↔
      ∃ d, w.find? (.text x) = some d ∧ d.parent = .text p ∧ d.parentInput = .ofText? s := by
  rw [seat?_eq_some]
  refine exists_congr fun d => and_congr_right fun hd => ?_
  have hsh := h.shaped x d hd
  constructor
  · exact hsh.parent_of_seat?
  · rintro ⟨hp, hi⟩
    cases s <;> simp [Block.seat?, hp, hi, Value.ofText?]

/-- What a socket holds is the id of a block that is plugged into it. -/
theorem exists_plugged {p s : Key} {b : Block} {v : Value} (hb : w.find? p = some b)
    (hv : Entries.get? b.inputs s = some v) :
    ∃ q t x, p = .text q ∧ s = .text t ∧ v = .text x ∧ w.block? q = some b ∧
      w.child? q (some t) = some x := by
  obtain ⟨q, rfl, hb⟩ := h.key_text hb
  have hsh := h.shaped q b hb
  obtain ⟨j, hmem, hjs⟩ := Entries.exists_mem_of_get? hv
  obtain ⟨t, x, htx⟩ := hsh.inputs _ hmem
  obtain ⟨rfl, rfl⟩ := Prod.mk.inj htx
  obtain rfl := Key.text_beq_iff.mp hjs
  exact ⟨q, t, x, rfl, rfl, rfl, hb, child?_eq_some.mpr ⟨b, hb, hsh.mem_inputs.mp hmem⟩⟩

/-- A block that is followed by another one holds the id of that one. -/
theorem exists_following {p : Key} {b : Block} (hb : w.find? p = some b) (hn : b.next ≠ .null) :
    ∃ q x, p = .text q ∧ b.next = .text x ∧ w.block? q = some b ∧ w.child? q none = some x := by
  obtain ⟨q, rfl, hb⟩ := h.key_text hb
  obtain ⟨x, hx⟩ := (h.shaped q b hb).next.resolve_left hn
  exact ⟨q, x, rfl, hx, hb, child?_eq_some.mpr ⟨b, hb, by simp [Block.child?, hx]⟩⟩

theorem plugged {p s : Key} {c : Value} (hs : s ≠ .null) :
    (∃ b, w.find? p = some b ∧ Entries.get? b.inputs s = some c) ↔
      ∃ k d, c = .ofKey k ∧ w.find? k = some d ∧ d.parent = .ofKey p ∧
        d.parentInput = .ofKey s := by
  constructor
  · rintro ⟨b, hb, hc⟩
    obtain ⟨p, t, x, rfl, rfl, rfl, -, hx⟩ := h.exists_plugged hb hc
    obtain ⟨d, hd, hp, hi⟩ := h.seat_iff.mp ((h.linked ..).mp hx)
    exact ⟨.text x, d, rfl, hd, hp, hi⟩
  · rintro ⟨k, d, rfl, hd, hp, hi⟩
    obtain ⟨x, rfl, hd⟩ := h.key_text hd
    rcases (h.shaped x d hd).seat with ⟨hp', hi'⟩ | ⟨q, hq, hi'⟩
    · exact absurd (Value.ofKey_eq_null (hi.symm.trans hi')) hs
    · obtain rfl := Value.ofKey_eq_text (hp.symm.trans hq)
      rcases hi' with hi' | ⟨t, ht⟩
      · exact absurd (Value.ofKey_eq_null (hi.symm.trans hi')) hs
      · obtain rfl := Value.ofKey_eq_text (hi.symm.trans ht)
        have hx := (h.linked q (some t) x).mpr (h.seat_iff.mpr ⟨d, hd, hp, hi⟩)
        obtain ⟨b, hb, hc⟩ := child?_eq_some.mp hx
        exact ⟨b, hb, by rw [(h.shaped q b hb).get?_inputs, hc]; rfl⟩

theorem followed {p : Key} {c : Value} (hp : p ≠ .null) (hc : c ≠ .null) :
    (∃ b, w.find? p = some b ∧ b.next = c) ↔
      ∃ k d, c = .ofKey k ∧ w.find? k = some d ∧ d.parent = .ofKey p ∧
        d.parentInput = .null := by
  constructor
  · rintro ⟨b, hb, rfl⟩
    obtain ⟨p, x, rfl, hx, -, hn⟩ := h.exists_following hb hc
    obtain ⟨d, hd, hdp, hi⟩ := h.seat_iff.mp ((h.linked ..).mp hn)
    exact ⟨.text x, d, hx, hd, hdp, hi⟩
  · rintro ⟨k, d, rfl, hd, hdp, hi⟩
    obtain ⟨x, rfl, hd⟩ := h.key_text hd
    rcases (h.shaped x d hd).seat with ⟨hdp', -⟩ | ⟨q, hq, -⟩
    · exact absurd (Value.ofKey_eq_null (hdp.symm.trans hdp')) hp
    · obtain rfl := Value.ofKey_eq_text (hdp.symm.trans hq)
      have hx := (h.linked q none x).mpr (h.seat_iff.mpr ⟨d, hd, hdp, hi⟩)
      obtain ⟨b, hb, hc⟩ := child?_eq_some.mp hx
      exact ⟨b, hb, Value.text?_eq_some.mp hc⟩

theorem fitting {p : Key} {b : Block} {s : Key} {v : Value} (hb : w.find? p = some b)
    (hv : Entries.get? b.inputs s = some v) :
    ∃ d socket k c e, w.declarationOf b = .ok d ∧ d.input? (.ofKey s) = some socket ∧
      v = .ofKey k ∧ w.find? k = some c ∧ w.declarationOf c = .ok e ∧ e.isValue = true ∧
      e.fits socket = .ok true := by
  obtain ⟨p, t, x, rfl, rfl, rfl, hb, hx⟩ := h.exists_plugged hb hv
  obtain ⟨d, e, hd, he, socket, hs, hval, hfits⟩ := h.suited _ _ _ ((h.linked ..).mp hx)
  obtain ⟨c, hc, hec⟩ := type?_eq_some.mp he
  obtain ⟨b', hb', hdb⟩ := type?_eq_some.mp hd
  obtain rfl := Option.some.inj (hb.symm.trans hb')
  exact ⟨d, socket, .text x, c, e, hdb, hs, rfl, hc, hec, hval, hfits⟩

theorem joined {p : Key} {b : Block} (hb : w.find? p = some b) (hn : b.next ≠ .null) :
    ∃ d k c e, w.declarationOf b = .ok d ∧ b.next = .ofKey k ∧ w.find? k = some c ∧
      w.declarationOf c = .ok e ∧ d.next = true ∧ e.previous = true := by
  obtain ⟨p, x, rfl, hx, hb, hpx⟩ := h.exists_following hb hn
  obtain ⟨d, e, hd, he, hnext, hprev⟩ := h.suited _ _ _ ((h.linked ..).mp hpx)
  obtain ⟨c, hc, hec⟩ := type?_eq_some.mp he
  obtain ⟨b', hb', hdb⟩ := type?_eq_some.mp hd
  obtain rfl := Option.some.inj (hb.symm.trans hb')
  exact ⟨d, .text x, c, e, hdb, hx, hc, hec, hnext, hprev⟩

/-- A link leads down to a block that hangs from the one it begins at. -/
theorem above?_of_leads {k j : Key} (hl : w.Leads k j) :
    ∃ x y, k = .text x ∧ j = .text y ∧ w.above? y = some x := by
  obtain ⟨b, hb, hj⟩ := hl
  obtain ⟨x, rfl, hb⟩ := h.key_text hb
  have hsh := h.shaped x b hb
  rw [hsh.targets_eq (h.next_ne_empty hb)] at hj
  obtain ⟨y, hy, hj⟩ := List.mem_map.mp hj
  obtain ⟨s, hs⟩ := hsh.mem_children.mp hy
  exact ⟨x, y, rfl, Value.ofKey_eq_text hj.symm, h.above?_of_child? (child?_eq_some.mpr ⟨b, hb, hs⟩)⟩

theorem acyclic (k : Key) : ¬ TransGen w.Leads k k := by
  have up {k j : Key} (hkj : TransGen w.Leads k j) : ∃ x y, k = .text x ∧ j = .text y ∧
      TransGen (fun y x => w.above? y = some x) y x := by
    induction hkj with
    | single hl =>
        obtain ⟨x, y, hx, hy, hxy⟩ := h.above?_of_leads hl
        exact ⟨x, y, hx, hy, .single hxy⟩
    | tail _ hl ih =>
        obtain ⟨x, y, hx, rfl, hxy⟩ := ih
        obtain ⟨y', z, hy, hz, hyz⟩ := h.above?_of_leads hl
        cases hy
        exact ⟨x, z, hx, hz, .head hyz hxy⟩
  intro hk
  obtain ⟨x, y, rfl, hy, hxy⟩ := up hk
  cases hy
  exact h.rooted.acyclic x hxy

/-- A sound workspace is intact. -/
theorem toIntact : w.Intact where
  stored k b hb := by
    obtain ⟨x, hx, rfl, hid⟩ := h.named k b hb
    exact ⟨x, hx, rfl, hid⟩
  plugged _ _ _ hs := h.plugged hs
  followed _ _ hp hc := h.followed hp hc
  fitting _ _ _ _ hb hv := h.fitting hb hv
  joined _ _ hb hn := h.joined hb hn
  acyclic := h.acyclic

end Workspace.Sound

/-! ### Histories -/

/-- **After every call of a history the workspace is intact**: also after calls that fail, and
whatever the audience answers with. -/
theorem History.intact {σ : Type} {a : Audience σ} (ha : a.Tame) {v : Vocabulary} (hv : v.Worded)
    {w : Workspace} (h : History a v w) : w.Intact := (h.sound ha hv).toIntact

/-- A text is plugged into a block that puts it out. -/
theorem History.intact_plugged_text : ∃ w : Workspace, History .journal .stock w ∧
    (∃ b, w.find? (.text "a") = some b ∧ Entries.get? b.inputs (.text "TEXT") = some (.text "d")) ∧
      w.Intact := by
  obtain ⟨w, hw, h⟩ := Shelved.exists_laden .one
  refine ⟨w, hw, ⟨_, h.find?_eq _, rfl⟩, ?_⟩
  exact History.intact Audience.tame_journal Vocabulary.worded_stock hw

end Blockwork
