import Blockwork.Proofs.Linking

/-!
# Connecting and disconnecting

What the edits of links come to when they begin in a sound workspace.  Each rule says what holds
when the edit goes through and what can be the reason when it does not; a refused edit ends in the
workspace in which it began.
-/

namespace Blockwork

open Forest (Rooted Hangs Lineage)

namespace Workspace

variable {w : Workspace}

/-- Only what a change does to the block under its own id matters. -/
theorem edit_congr {x : String} {f g : Block → Block}
    (h : ∀ b, w.block? x = some b → f b = g b) : w.edit x f = w.edit x g := by
  unfold edit Table.modify
  split
  · rename_i b hb
    rw [h b hb]
  · rfl

theorem Sound.exists_type (h : w.Sound) {x : String} {b : Block} (hb : w.block? x = some b) :
    ∃ d, w.type? x = some d ∧ w.declarationOf b = .ok d := by
  obtain ⟨d, hd⟩ := Option.isSome_iff_exists.mp (h.typed x (by rw [hb]; rfl))
  obtain ⟨c, hc, hdc⟩ := type?_eq_some.mp hd
  obtain rfl := Option.some.inj (hb.symm.trans hc)
  exact ⟨d, hd, hdc⟩

/-- Whether there is a block under a text, and it is of a declared type. -/
structure Stands (w : Workspace) (x : String) (b : Block) (d : Declaration) : Prop where
  block : w.block? x = some b
  type : w.type? x = some d
  declared : w.declarationOf b = .ok d

/-- The chain from a block on comes to an end. -/
theorem Sound.exists_tail (h : w.Sound) {x : String} (hx : (w.block? x).isSome) :
    ∃ chain t b d, w.chain (.text x) = .ok chain ∧ chain.getLast? = some (.text t, b) ∧
      w.Stands t b d ∧ w.Trails x t := by
  obtain ⟨m, chain, hm, hchain, hall⟩ := h.exists_chain hx
  obtain ⟨t, ht, -⟩ := hm.exists_getLast
  obtain ⟨⟨_, b⟩, hlast, rfl, hb⟩ := getLast?_of_forall₂ hall ht
  obtain ⟨d, htt, hd⟩ := h.exists_type hb
  exact ⟨chain, t, b, d, hchain, hlast, ⟨hb, htt, hd⟩, m, hm, ht⟩

theorem suits_iff {p c : String} {s : Slot} {d e : Declaration} (hd : w.type? p = some d)
    (he : w.type? c = some e) : w.Suits p s c ↔ d.Takes s e := by
  unfold Suits
  rw [hd, he]
  simp

end Workspace

namespace Edit

variable {w : Workspace} {x : String} {b : Block} {α : Type}

theorem ends_update {f : Block → Block} {good : Unit → Workspace → Prop}
    {bad : Error → Workspace → Prop} (hg : good () (w.edit x f)) :
    Ends (update (.text x) f) w good bad := Ends.modify hg

/-! ### Unplugging -/

theorem ends_unplug (h : w.Sound) (hb : w.block? x = some b) {good : Unit → Workspace → Prop}
    {bad : Error → Workspace → Prop} (hg : good () (w.cut x)) :
    Ends (unplug (.text x)) w good bad := by
  have hsh := h.shaped x b hb
  have hseat : w.seat? x = b.seat? := by rw [Workspace.seat?, hb, Option.bind_some]
  unfold unplug
  refine Ends.bind (ends_deref hb ?_)
  unfold Workspace.cut at hg
  cases hs : b.seat? with
  | none =>
      rw [hseat, hs] at hg
      rw [if_pos (hsh.parent_of_seat?_none hs).1]
      exact Ends.pure hg
  | some q =>
      obtain ⟨p, s⟩ := q
      rw [hseat, hs] at hg
      obtain ⟨hp, hi⟩ := hsh.parent_of_seat? hs
      -- the block above is there, and links agree: it names `x` in the socket that `x` names
      obtain ⟨a, ha⟩ := Option.isSome_iff_exists.mp (h.isSome_parent (hseat.trans hs))
      rw [if_neg (by rw [hp]; exact Value.noConfusion)]
      refine Ends.bind (ends_follow (by rw [hp]; rfl) ha ?_)
      cases s with
      | none =>
          rw [if_pos (show b.parentInput = .null from hi)]
          exact Ends.bind (ends_update (ends_update hg))
      | some s =>
          rw [if_neg (by rw [hi]; exact Value.noConfusion)]
          refine Ends.bind (ends_deref ha ?_)
          have hin : (.text s, .text x) ∈ a.inputs := by
            refine (h.shaped p a ha).mem_inputs.mpr ?_
            have := (h.linked p (some s) x).mpr (hseat.trans hs)
            rwa [Workspace.child?, ha, Option.bind_some] at this
          have hdrop : dropInput a.inputs b.parentInput =
              .ok (Entries.erase a.inputs (.text s)) := by
            unfold dropInput
            rw [if_neg (by simp [List.ne_nil_of_mem hin]), hi]
            rfl
          refine Ends.bind (ends_ofExcept_ok hdrop ?_)
          refine Ends.bind (ends_update (ends_update ?_))
          have same : w.edit p (fun q => { q with inputs := Entries.erase a.inputs (.text s) }) =
              w.edit p (·.vacate (some s)) := Workspace.edit_congr fun a' ha' => by
            obtain rfl := Option.some.inj (ha.symm.trans ha')
            rfl
          rw [same]
          exact hg

/-- A block that is there is taken from where it hangs. -/
theorem ends_disconnect (h : w.Sound) {id : Key} {good : List Notice → Workspace → Prop}
    {bad : Error → Workspace → Prop} (hb : ∀ e, w.find? id = none → bad e w)
    (hg : ∀ x ns, id = .text x → good ns (w.cut x)) : Ends (disconnect id) w good bad := by
  unfold disconnect
  refine Ends.bind (ends_require (fun b hf => ?_) (hb _))
  obtain ⟨x, rfl, hx⟩ := h.key_text hf
  split
  · rename_i hp
    have hcut : w.cut x = w := by
      unfold Workspace.cut Workspace.seat?
      rw [hx, Option.bind_some, Block.seat?, hp]
      rfl
    exact Ends.pure (hcut ▸ hg x [] rfl)
  · exact Ends.bind (ends_unplug h hx (Ends.pure (hg x _ rfl)))

/-! ### Connecting -/

/-- What an edit answers when a block is connected. -/
def connected (above : Key) (socket : Value) (below : Key) : List Notice :=
  [notice .move below [("new_parent", .ofKey above), ("new_input", socket)]]

section

variable {above below : Key} {good : List Notice → Workspace → Prop}
  {bad : Error → Workspace → Prop}

/-- Both blocks that are to be connected have to be there, each with a declared type. -/
theorem ends_requireBoth (h : w.Sound) {rest : Block → Block → Edit α}
    {good : α → Workspace → Prop}
    (hb : ∀ e, (∀ p s c, above = .text p → below = .text c → ¬ w.Connects p s c) → bad e w)
    (hg : ∀ p c a b d e, above = .text p → below = .text c → w.Stands p a d → w.Stands c b e →
      Ends (rest a b) w good bad) :
    Ends (do rest (← require above) (← require below)) w good bad := by
  refine Ends.bind (ends_require (fun a hfa => ?_) fun hn => hb _ ?_)
  · refine Ends.bind (ends_require (fun b hfb => ?_) fun hn => hb _ ?_)
    · obtain ⟨p, rfl, ha⟩ := h.key_text hfa
      obtain ⟨c, rfl, hcb⟩ := h.key_text hfb
      obtain ⟨d, hpt, hd⟩ := h.exists_type ha
      obtain ⟨e, hct, he⟩ := h.exists_type hcb
      exact hg p c a b d e rfl rfl ⟨ha, hpt, hd⟩ ⟨hcb, hct, he⟩
    · rintro p s c - rfl ⟨hs, -⟩
      exact Option.not_isSome_iff_eq_none.mpr hn hs.isSome_child
  · rintro p s c rfl - ⟨hs, -⟩
    exact Option.not_isSome_iff_eq_none.mpr hn hs.isSome_parent

/-- A block takes the place of the one in a socket, which hangs nowhere then. -/
theorem ends_exchange (h : w.Sound) {p s c : String} {a b : Block} (ha : w.block? p = some a)
    (hcb : w.block? c = some b) (hg : ∀ ns, good ns (w.plug p (some s) c)) :
    Ends (do
      let occupant := (Entries.get? a.inputs (.text s)).getD .null
      if occupant.same (.ofKey (.text c)) then return []
      if occupant ≠ .null then unplug (← follow occupant)
      unplug (.text c)
      update (.text p) fun p => { p with inputs := Entries.put p.inputs (.text s) (.ofKey (.text c)) }
      update (.text c) fun c => { c with parent := .ofKey (.text p), parentInput := .text s }
      return connected (.text p) (.text s) (.text c)) w good bad := by
  have hocc : (Entries.get? a.inputs (.text s)).getD .null = .ofText? (w.child? p (some s)) := by
    rw [Workspace.child?, ha, Option.bind_some, (h.shaped p a ha).get?_inputs]
    cases a.child? (some s) <;> rfl
  unfold Workspace.plug at hg
  dsimp only
  rw [hocc]
  cases ho : w.child? p (some s) with
  | none =>
      rw [if_neg (by simp [Value.ofText?, Value.same_text_right]), if_neg (by simp [Value.ofText?])]
      refine Ends.bind (ends_unplug h hcb (Ends.bind (ends_update (Ends.bind (ends_update ?_)))))
      have := hg (connected (.text p) (.text s) (.text c))
      rw [ho, if_neg (by simp), Workspace.release, ho] at this
      exact Ends.pure this
  | some o =>
      by_cases hoc : o = c
      · rw [if_pos (by simp [Value.ofText?, hoc])]
        have := hg []
        rw [ho, if_pos (by rw [hoc])] at this
        exact Ends.pure this
      · obtain ⟨b', hb'⟩ := Option.isSome_iff_exists.mp (h.isSome_child ho)
        obtain ⟨b'', hb''⟩ := Option.isSome_iff_exists.mp
          (((w.sameCore_cut o).isSome_block? c).trans (by rw [hcb]; rfl))
        rw [if_neg (by simp [Value.ofText?, hoc]), if_pos (by simp [Value.ofText?])]
        refine Ends.bind (ends_follow rfl hb' (Ends.bind (ends_unplug h hb' ?_)))
        refine Ends.bind (ends_unplug (h.cut o) hb''
          (Ends.bind (ends_update (Ends.bind (ends_update ?_)))))
        have := hg (connected (.text p) (.text s) (.text c))
        rw [ho, if_neg (by simpa using hoc), Workspace.release, ho] at this
        exact Ends.pure this

/-- A block is plugged into a socket just when it may be. -/
theorem ends_connectValue (h : w.Sound) {socket : Value}
    (hb : ∀ e, (∀ p s c, above = .text p → socket = .text s → below = .text c →
      ¬ w.Connects p (some s) c) → bad e w)
    (hg : ∀ p s c ns, above = .text p → socket = .text s → below = .text c →
      w.Connects p (some s) c → good ns (w.plug p (some s) c)) :
    Ends (connectValue above socket below) w good bad := by
  unfold connectValue
  refine ends_requireBoth h (fun e hno => hb e fun p s c hp _ hc => hno p s c hp hc) ?_
  rintro p c a b d e rfl rfl ⟨ha, hpt, hd⟩ ⟨hcb, hct, he⟩
  have deny (hno : ∀ s, socket = .text s → ¬ w.Connects p (some s) c) (e : Error) : bad e w := by
    refine hb e fun p' s c' hp hs hc => ?_
    cases hp
    cases hc
    exact hno s hs
  refine Ends.bind (ends_declarationOf_ok hd ?_)
  cases hi : d.input? socket with
  | none =>
      refine ends_refuse (deny ?_ _)
      rintro s rfl ⟨hs, -⟩
      obtain ⟨t, ht, -⟩ := (Workspace.suits_iff hpt hct).mp hs
      rw [hi] at ht
      cases ht
  | some t =>
      obtain ⟨s, rfl, -⟩ := Declaration.input?_eq_some h.worded (Workspace.mem_of_type? hpt) hi
      -- what the two declarations say is all that the checks read
      have takes : w.Suits p (some s) c ↔ e.isValue = true ∧ e.fits t = .ok true := by
        rw [Workspace.suits_iff hpt hct]
        constructor
        · rintro ⟨t', ht, hv, hf⟩
          obtain rfl := Option.some.inj (hi.symm.trans ht)
          exact ⟨hv, hf⟩
        · rintro ⟨hv, hf⟩
          exact ⟨t, hi, hv, hf⟩
      have deny' (hno : ¬ w.Connects p (some s) c) (e : Error) : bad e w :=
        deny (fun s' hs => by cases hs; exact hno) e
      refine Ends.bind (ends_declarationOf_ok he ?_)
      refine ends_guard (fun hv => deny' (fun hc => ?_) _) fun hv => ?_
      · simp [(takes.mp hc.1).1] at hv
      refine Ends.bind (ends_ofExcept (fun r hr => ?_) fun err hr => deny' (fun hc => ?_) _)
      swap
      · exact nomatch hr.symm.trans (takes.mp hc.1).2
      refine ends_guard (fun hf => deny' (fun hc => ?_) _) fun hf => ?_
      · rw [(takes.mp hc.1).2] at hr
        cases hr
        simp at hf
      have hs : w.Suits p (some s) c := takes.mpr ⟨by simpa using hv, by rw [hr]; simpa using hf⟩
      obtain ⟨r, hr, hangs⟩ := h.hangsFrom_eq (x := p) (by simp [ha]) c
      refine Ends.bind (Ends.get (Ends.bind (ends_ofExcept_ok hr ?_)))
      refine ends_guard (fun hk => deny' (fun hc => hc.2 (hangs.mp hk)) _) fun hk => ?_
      have hc : w.Connects p (some s) c := ⟨hs, fun k => hk (hangs.mpr k)⟩
      exact ends_exchange h ha hcb fun ns => hg p s c ns rfl rfl rfl hc

/-- Once a block is put behind another one, what followed that one is put behind the chain of the
first, if its last block can be followed. -/
theorem ends_append (h : w.Sound) {p c o : String} (hc : w.Connects p none c)
    (hne : w.child? p none ≠ some c) (ho : (w.cut c).child? p none = some o) {ns : List Notice}
    (hg : ∀ w', w.Follows p c w' → good ns w') :
    Ends (do
      if let some (last, tail) := (← ofExcept ((← get).chain (.text c))).getLast? then
        if (← declarationOf tail).next then
          let moved ← follow (.ofText? (some o))
          update last fun t => { t with next := .ofText? (some o) }
          update moved fun m => { m with parent := tail.id, parentInput := .null }
      return ns) (w.splice p c) good bad := by
  have hsp := h.splice hc
  have there (y : String) : ((w.splice p c).block? y).isSome = (w.block? y).isSome :=
    (w.sameCore_splice p c).isSome_block? y
  obtain ⟨chain, t, bt, e, hchain, hlast, ⟨hbt, htt, he⟩, htrail⟩ :=
    hsp.exists_tail ((there c).trans hc.1.isSome_child)
  refine Ends.bind (Ends.get (Ends.bind (ends_ofExcept_ok hchain ?_)))
  rw [hlast]
  refine Ends.bind (ends_declarationOf_ok he ?_)
  split
  · rename_i hnext
    have hob : ((w.cut c).block? o).isSome := (h.cut c).isSome_child ho
    rw [(w.sameCore_cut c).isSome_block?, ← there] at hob
    obtain ⟨bo, hbo⟩ := Option.isSome_iff_exists.mp hob
    refine Ends.bind (ends_follow rfl hbo (Ends.bind (ends_update (Ends.bind (ends_update ?_)))))
    rw [hsp.id_eq hbt]
    exact Ends.pure (hg _ (.before hne ho htrail htt hnext))
  · rename_i hnext
    exact Ends.pure (hg _ (.alone hne fun _ _ => ⟨t, e, htrail, htt, by simpa using hnext⟩))

/-- A block is let follow another one just when it may, and answers that it does, unless it did. -/
theorem ends_connectNext_answer (h : w.Sound)
    (hb : ∀ e, (∀ p c, above = .text p → below = .text c → ¬ w.Connects p none c) → bad e w)
    (hg : ∀ p c ns w', above = .text p → below = .text c → w.Connects p none c →
      w.Follows p c w' →
      ns = (if w.child? p none = some c then [] else connected above .null below) → good ns w') :
    Ends (connectNext above below) w good bad := by
  unfold connectNext
  refine ends_requireBoth h (fun e hno => hb e fun p c => hno p none c) ?_
  rintro p c a b d e rfl rfl ⟨ha, hpt, hd⟩ ⟨hcb, hct, he⟩
  have deny (hno : ¬ w.Connects p none c) (e : Error) : bad e w := by
    refine hb e fun p' c' hp hc => ?_
    cases hp
    cases hc
    exact hno
  have takes : w.Suits p none c ↔ d.next = true ∧ e.previous = true := Workspace.suits_iff hpt hct
  refine Ends.bind (ends_declarationOf_ok hd ?_)
  refine ends_guard (fun hn => deny (fun hc => ?_) _) fun hn => ?_
  · simp [(takes.mp hc.1).1] at hn
  refine Ends.bind (ends_declarationOf_ok he ?_)
  refine ends_guard (fun hv => deny (fun hc => ?_) _) fun hv => ?_
  · simp [(takes.mp hc.1).2] at hv
  obtain ⟨r, hr, hangs⟩ := h.hangsFrom_eq (x := p) (by simp [ha]) c
  refine Ends.bind (Ends.get (Ends.bind (ends_ofExcept_ok hr ?_)))
  refine ends_guard (fun hk => deny (fun hc => hc.2 (hangs.mp hk)) _) fun hk => ?_
  have hc : w.Connects p none c :=
    ⟨takes.mpr ⟨by simpa using hn, by simpa using hv⟩, fun k => hk (hangs.mpr k)⟩
  have hg' := fun ns w' => hg p c ns w' rfl rfl hc
  -- every check is passed: either `c` follows `p` already, or it is cut and put behind `p`
  rw [h.next_eq ha]
  split
  · rename_i hs
    have hpc : w.child? p none = some c := by
      cases ho : w.child? p none with
      | none => simp [ho, Value.ofText?, Value.same_text_right] at hs
      | some o => simpa [ho, Value.ofText?] using hs
    exact Ends.pure (hg' [] w (.already hpc) (by rw [if_pos hpc]))
  rename_i hs
  have hne : w.child? p none ≠ some c := fun ho => by simp [ho, Value.ofText?] at hs
  have hg' := fun w' (hf : w.Follows p c w') =>
    hg' (connected (.text p) .null (.text c)) w' hf (by rw [if_neg hne])
  have hk := h.cut c
  refine Ends.bind (ends_unplug h hcb ?_)
  obtain ⟨a', ha'⟩ := Option.isSome_iff_exists.mp
    (((w.sameCore_cut c).isSome_block? p).trans (by rw [ha]; rfl))
  refine Ends.bind (ends_deref ha' ?_)
  rw [hk.next_eq ha']
  cases ho : (w.cut c).child? p none with
  | none =>
      rw [if_neg (by simp [Value.ofText?])]
      refine Ends.bind (ends_update (Ends.bind (ends_update ?_)))
      rw [if_neg (by simp [Value.ofText?])]
      have := hg' _ (.alone hne fun d hd => by
        rw [ho] at hd
        cases hd)
      rw [Workspace.splice, Workspace.release, ho] at this
      exact Ends.pure this
  | some o =>
      obtain ⟨b', hb'⟩ := Option.isSome_iff_exists.mp (hk.isSome_child ho)
      rw [if_pos (by simp [Value.ofText?])]
      refine Ends.bind (ends_follow rfl hb' (Ends.bind (ends_unplug hk hb' ?_)))
      refine Ends.bind (ends_update (Ends.bind (ends_update ?_)))
      dsimp only
      rw [if_pos (by simp [Value.ofText?])]
      have heq : ((w.cut c).cut o).bind p none c = w.splice p c := by
        rw [Workspace.splice, Workspace.release, ho]
      change Ends _ (((w.cut c).cut o).bind p none c) good bad
      rw [heq]
      exact ends_append h hc hne ho fun w' => hg' w'

theorem ends_connectNext (h : w.Sound)
    (hb : ∀ e, (∀ p c, above = .text p → below = .text c → ¬ w.Connects p none c) → bad e w)
    (hg : ∀ p c ns w', above = .text p → below = .text c → w.Connects p none c →
      w.Follows p c w' → good ns w') :
    Ends (connectNext above below) w good bad :=
  ends_connectNext_answer h hb fun p c ns w' hp hc hk hf _ => hg p c ns w' hp hc hk hf

end

end Edit

end Blockwork
