import Blockwork.Proofs.Schemas

/-!
# Descriptions of blocks

What a block type shows of its blocks is its message with each slot filled once
(`Declaration.exists_describes`).  A message is read from the left in one of three ways: it is at
its end, or there is a slot with all of its digits, or a character that stands for itself
(`Template.induction_on`).  What a message is rendered as is said in these terms
(`Template.Renders`), without a look at how the message is taken apart; a text that is put in is
passed over, so that nothing of it is read as a slot.
-/

namespace Blockwork

namespace Template

/-! ### Slots in a message -/

/-- Whether characters are digits, at least one, with no further digit behind them. -/
structure Numeral (ds post : List Char) : Prop where
  ne_nil : ds ≠ []
  digits : ∀ c ∈ ds, (Text.digit? c).isSome = true
  ends : ∀ c ∈ post.head?, Text.digit? c = none

/-- Whether a slot with its digits stands between the beginning and the end of a message. -/
structure Occurs (cs pre ds post : List Char) : Prop where
  spelled : cs = pre ++ '%' :: (ds ++ post)
  numeral : Numeral ds post

/-- Whether characters are those of a message with something else in place of each slot, all put in
at once. -/
inductive Renders (shows : List Char → List Char → Prop) : List Char → List Char → Prop where
  | nil : Renders shows [] []
  | slot {ds post text out : List Char} : Numeral ds post → shows ds text → Renders shows post out →
      Renders shows ('%' :: (ds ++ post)) (text ++ out)
  | char {c : Char} {cs out : List Char} : (c = '%' → ∀ d ∈ cs.head?, Text.digit? d = none) →
      Renders shows cs out → Renders shows (c :: cs) (c :: out)

theorem digit?_percent : Text.digit? '%' = none := by decide

theorem takeWhile_eq_nil {cs : List Char} (h : ∀ c ∈ cs.head?, Text.digit? c = none) :
    cs.takeWhile (fun c => (Text.digit? c).isSome) = [] := by
  cases cs with
  | nil => rfl
  | cons c cs => rw [List.takeWhile_cons, h c rfl]; rfl

theorem Numeral.takeWhile_eq {ds post : List Char} (h : Numeral ds post) :
    (ds ++ post).takeWhile (fun c => (Text.digit? c).isSome) = ds := by
  rw [List.takeWhile_append_of_pos h.digits, takeWhile_eq_nil h.ends, List.append_nil]

/-- The digits of a slot are told from what is behind them. -/
theorem Numeral.unique {ds post ds' post' : List Char} (h : Numeral ds post)
    (h' : Numeral ds' post') (he : ds ++ post = ds' ++ post') : ds = ds' ∧ post = post' := by
  have hds : ds = ds' := by rw [← h.takeWhile_eq, he, h'.takeWhile_eq]
  subst hds
  exact ⟨rfl, List.append_cancel_left he⟩

theorem Numeral.not_ends {ds post : List Char} (h : Numeral ds post) :
    ¬ ∀ c ∈ (ds ++ post).head?, Text.digit? c = none := fun hends => by
  obtain ⟨d, ds, rfl⟩ := List.exists_cons_of_ne_nil h.ne_nil
  have hd := h.digits d List.mem_cons_self
  rw [hends d rfl] at hd
  cases hd

/-- A percent sign is no digit, so it makes no difference to what comes before a slot. -/
theorem ends_append {cs rest : List Char} (h : ∀ c ∈ cs.head?, Text.digit? c = none) :
    ∀ c ∈ (cs ++ '%' :: rest).head?, Text.digit? c = none := by
  cases cs with
  | nil =>
      intro c hc
      obtain rfl := Option.some.inj hc
      exact digit?_percent
  | cons d cs => exact h

theorem Numeral.before_slot {ds post rest : List Char} (h : Numeral ds post) :
    Numeral ds (post ++ '%' :: rest) := ⟨h.ne_nil, h.digits, ends_append h.ends⟩

/-- What holds of a message whatever it begins with holds of all messages. -/
@[elab_as_elim]
theorem induction_on {P : List Char → Prop} (cs : List Char) (nil : P [])
    (slot : ∀ ds post, Numeral ds post → P post → P ('%' :: (ds ++ post)))
    (char : ∀ c cs, (c = '%' → ∀ d ∈ cs.head?, Text.digit? d = none) → P cs → P (c :: cs)) :
    P cs := by
  induction h : cs.length using Nat.strong_induction_on generalizing cs with
  | _ n ih =>
  subst h
  cases cs with
  | nil => exact nil
  | cons c cs =>
      have hcs : cs.takeWhile (fun c => (Text.digit? c).isSome) ++
          cs.dropWhile (fun c => (Text.digit? c).isSome) = cs := List.takeWhile_append_dropWhile
      by_cases hslot : c = '%' ∧ cs.takeWhile (fun c => (Text.digit? c).isSome) ≠ []
      · obtain ⟨rfl, hne⟩ := hslot
        rw [← hcs]
        refine slot _ _ ⟨hne, List.all_eq_true.mp List.all_takeWhile, fun c hc => ?_⟩
          (ih _ (Nat.lt_succ_of_le (List.dropWhile_sublist _).length_le) _ rfl)
        have := List.head?_dropWhile_not (fun c => (Text.digit? c).isSome) cs
        rw [hc] at this
        simpa using this
      · refine char c cs (fun hc d hd => ?_) (ih _ (Nat.lt_succ_self _) cs rfl)
        have hnil := not_not.mp fun hne => hslot ⟨hc, hne⟩
        obtain ⟨cs, rfl⟩ := List.head?_eq_some_iff.mp hd
        rw [List.takeWhile_cons] at hnil
        split at hnil
        · cases hnil
        · rename_i hdigit
          simpa using hdigit

/-! ### Rendering -/

namespace Renders

variable {shows : List Char → List Char → Prop}

theorem slot_iff {ds post out : List Char} (h : Numeral ds post) :
    Renders shows ('%' :: (ds ++ post)) out ↔
      ∃ text rest, out = text ++ rest ∧ shows ds text ∧ Renders shows post rest := by
  constructor
  · intro hr
    generalize hcs : '%' :: (ds ++ post) = cs at hr
    cases hr with
    | nil => cases hcs
    | slot h' hshows hr =>
        obtain ⟨rfl, rfl⟩ := h.unique h' (List.cons.inj hcs).2
        exact ⟨_, _, rfl, hshows, hr⟩
    | char hc _ =>
        obtain ⟨rfl, rfl⟩ := List.cons.inj hcs
        exact absurd (hc rfl) h.not_ends
  · rintro ⟨text, rest, rfl, hshows, hr⟩
    exact .slot h hshows hr

theorem char_iff {c : Char} {cs out : List Char}
    (h : c = '%' → ∀ d ∈ cs.head?, Text.digit? d = none) :
    Renders shows (c :: cs) out ↔ ∃ rest, out = c :: rest ∧ Renders shows cs rest := by
  constructor
  · intro hr
    generalize hcs : c :: cs = all at hr
    cases hr with
    | nil => cases hcs
    | slot h' _ _ =>
        obtain ⟨rfl, rfl⟩ := List.cons.inj hcs
        exact absurd (h rfl) h'.not_ends
    | char _ hr =>
        obtain ⟨rfl, rfl⟩ := List.cons.inj hcs
        exact ⟨_, rfl, hr⟩
  · rintro ⟨rest, rfl, hr⟩
    exact .char h hr

/-- A message is rendered in one way, if each slot shows one text. -/
theorem unique {cs out out' : List Char} (h : Renders shows cs out) (h' : Renders shows cs out')
    (hshows : ∀ ds text text', shows ds text → shows ds text' → text = text') : out = out' := by
  induction h generalizing out' with
  | nil => cases h'; rfl
  | slot hn ht _ ih =>
      obtain ⟨text, rest, rfl, ht', hr⟩ := (slot_iff hn).mp h'
      rw [hshows _ _ _ ht ht', ih hr]
  | char hc _ ih =>
      obtain ⟨rest, rfl, hr⟩ := (char_iff hc).mp h'
      rw [ih hr]

/-- What a slot shows stands between what comes of the message before and behind the slot. -/
theorem around {cs pre ds post out : List Char} (h : Renders shows cs out)
    (ho : Occurs cs pre ds post) : ∃ before text after, out = before ++ (text ++ after) ∧
      shows ds text ∧ Renders shows pre before ∧ Renders shows post after := by
  obtain ⟨rfl, hn⟩ := ho
  -- from the left through what comes before the slot
  induction pre using induction_on generalizing out with
  | nil =>
      obtain ⟨text, after, rfl, htext, hafter⟩ := (slot_iff hn).mp h
      exact ⟨[], text, after, rfl, htext, .nil, hafter⟩
  | slot ds' post' hn' ih =>
      rw [List.cons_append, List.append_assoc] at h
      obtain ⟨text', rest, rfl, htext', hrest⟩ := (slot_iff hn'.before_slot).mp h
      obtain ⟨before, text, after, rfl, htext, hbefore, hafter⟩ := ih hrest
      exact ⟨text' ++ before, text, after, by rw [List.append_assoc], htext,
        .slot hn' htext' hbefore, hafter⟩
  | char c cs hc ih =>
      obtain ⟨rest, rfl, hrest⟩ := (char_iff fun he => ends_append (hc he)).mp h
      obtain ⟨before, text, after, rfl, htext, hbefore, hafter⟩ := ih hrest
      exact ⟨c :: before, text, after, rfl, htext, .char hc hbefore, hafter⟩

end Renders

/-! ### Taking a message apart -/

theorem split_digits {ds : List Char} (h : ∀ c ∈ ds, (Text.digit? c).isSome = true)
    (pending post : List Char) :
    split (some pending) (ds ++ post) = split (some (pending ++ ds)) post := by
  induction ds generalizing pending with
  | nil => rw [List.nil_append, List.append_nil]
  | cons d ds ih =>
      rw [List.cons_append, split, if_pos (h d List.mem_cons_self),
        ih (fun c hc => h c (List.mem_cons_of_mem d hc)), List.append_assoc]
      rfl

theorem split_close {post : List Char} (h : ∀ c ∈ post.head?, Text.digit? c = none)
    (pending : List Char) :
    split (some pending) post = Part.close pending :: split none post := by
  cases post with
  | nil => rfl
  | cons c cs =>
      have hc : (Text.digit? c).isSome = false := by rw [h c rfl]; rfl
      simp only [split, hc, Bool.false_eq_true, if_false]
      split <;> rfl

/-- A slot is taken off with all of its digits. -/
theorem split_slot {ds post : List Char} (h : Numeral ds post) :
    split none ('%' :: (ds ++ post)) = .slot ds :: split none post := by
  rw [split, if_pos rfl, split_digits h.digits, split_close h.ends, List.nil_append]
  obtain ⟨d, ds, rfl⟩ := List.exists_cons_of_ne_nil h.ne_nil
  rfl

/-- So is a character that stands for itself. -/
theorem split_char {c : Char} {cs : List Char}
    (h : c = '%' → ∀ d ∈ cs.head?, Text.digit? d = none) :
    split none (c :: cs) = .char c :: split none cs := by
  rw [split]
  split
  · rename_i hc
    rw [split_close (h hc), hc]
    rfl
  · rfl

/-- The slots that a message is taken apart into are those that stand in it. -/
theorem mem_split {cs ds : List Char} :
    .slot ds ∈ split none cs ↔ ∃ pre post, Occurs cs pre ds post := by
  constructor
  · intro h
    induction cs using induction_on with
    | nil => cases h
    | slot ds' post hn ih =>
        rw [split_slot hn] at h
        rcases List.mem_cons.mp h with h | h
        · cases h
          exact ⟨[], post, rfl, hn⟩
        · obtain ⟨pre, post', rfl, hn'⟩ := ih h
          exact ⟨'%' :: (ds' ++ pre), post', by rw [List.cons_append, List.append_assoc], hn'⟩
    | char c cs hc ih =>
        rw [split_char hc] at h
        rcases List.mem_cons.mp h with h | h
        · cases h
        · obtain ⟨pre, post, rfl, hn⟩ := ih h
          exact ⟨c :: pre, post, rfl, hn⟩
  · rintro ⟨pre, post, rfl, hn⟩
    induction pre using induction_on with
    | nil =>
        rw [List.nil_append, split_slot hn]
        exact List.mem_cons_self
    | slot ds' post' hn' ih =>
        rw [List.cons_append, List.append_assoc, split_slot hn'.before_slot]
        exact List.mem_cons_of_mem _ ih
    | char c cs hc ih =>
        rw [List.cons_append, split_char fun he => ends_append (hc he)]
        exact List.mem_cons_of_mem _ ih

/-- Pieces that are filled one by one make up a rendering. -/
theorem renders_of_mapM {ε : Type} {shows : List Char → List Char → Prop}
    {f : Part → Except ε String} (hchar : ∀ c, f (.char c) = .ok (String.singleton c))
    {cs : List Char} (hslot : ∀ ds, .slot ds ∈ split none cs → ∀ s, f (.slot ds) = .ok s →
      shows ds s.toList) {ss : List String} (h : (split none cs).mapM f = .ok ss) :
    Renders shows cs (String.join ss).toList := by
  induction cs using induction_on generalizing ss with
  | nil =>
      cases h
      exact .nil
  | slot ds post hn ih =>
      rw [split_slot hn] at h hslot
      rw [List.mapM_cons] at h
      obtain ⟨s, hs, h⟩ := exists_of_bind_ok h
      obtain ⟨rest, hrest, h⟩ := exists_of_bind_ok h
      obtain rfl := Except.ok.inj h
      rw [String.toList_join, List.flatMap_cons, ← String.toList_join]
      exact .slot hn (hslot ds List.mem_cons_self s hs)
        (ih (fun ds' hds' => hslot ds' (List.mem_cons_of_mem _ hds')) hrest)
  | char c cs hc ih =>
      rw [split_char hc] at h hslot
      rw [List.mapM_cons, hchar] at h
      obtain ⟨s, hs, h⟩ := exists_of_bind_ok h
      obtain rfl := Except.ok.inj hs
      obtain ⟨rest, hrest, h⟩ := exists_of_bind_ok h
      obtain rfl := Except.ok.inj h
      rw [String.toList_join, List.flatMap_cons, ← String.toList_join, String.toList_singleton]
      exact .char hc (ih (fun ds' hds' => hslot ds' (List.mem_cons_of_mem _ hds')) hrest)

theorem mem_slotDigits {message : String} {ds : List Char} :
    ds ∈ slotDigits message ↔ ∃ pre post, Occurs message.toList pre ds post := by
  rw [← mem_split, slotDigits, List.mem_filterMap]
  constructor
  · rintro ⟨p, hp, h⟩
    cases p with
    | char c => cases h
    | slot ds' =>
        obtain rfl := Option.some.inj h
        exact hp
  · exact fun h => ⟨.slot ds, h, rfl⟩

theorem forall₂_of_slots? {message : String} {ns : List Nat} (h : slots? message = some ns) :
    List.Forall₂ (fun ds n => Part.number? ds = some n) (slotDigits message) ns := by
  unfold slots? at h
  generalize slotDigits message = dss at h
  induction dss generalizing ns with
  | nil =>
      cases h
      exact .nil
  | cons ds dss ih =>
      rw [List.mapM_cons] at h
      obtain ⟨n, hn, h⟩ := Option.bind_eq_some_iff.mp h
      obtain ⟨ns', hns, h⟩ := Option.bind_eq_some_iff.mp h
      obtain rfl := Option.some.inj h
      exact .cons hn (ih hns)

theorem Part.number_of_number? {ds : List Char} {n : Nat} (h : number? ds = some n) :
    number ds = n := by
  unfold number? at h
  split at h
  · cases h
  · exact Option.some.inj h

end Template

/-! ### Descriptions -/

/-- What is shown of an argument: the value given under its name, else its default, else its name
in brackets. -/
def Socket.shown (values : List (Key × Value)) (s : Socket) : String :=
  match s.name.key?.bind (Entries.get? values) with
  | some v => v.display
  | none => if s.default = .null then "[" ++ s.name.display ++ "]" else s.default.display

/-- Whether digits are the number of an argument, counted from one, and characters are what is shown
of it. -/
def Declaration.Shows (d : Declaration) (values : List (Key × Value)) (ds text : List Char) : Prop :=
  ∃ s, 1 ≤ Template.Part.number ds ∧ d.sockets[Template.Part.number ds - 1]? = some s ∧
    text = (s.shown values).toList

/-- Whether a text is the message of a block type with each slot filled. -/
structure Declaration.Describes (d : Declaration) (values : List (Key × Value)) (text : String) :
    Prop where
  renders : Template.Renders (d.Shows values) d.message.toList text.toList
  /-- There is no other such text. -/
  unique : ∀ other, Template.Renders (d.Shows values) d.message.toList other → other = text.toList
  /-- Every slot has the number of an argument, and shows this one. -/
  slot : ∀ pre ds post, Template.Occurs d.message.toList pre ds post →
    (1 ≤ Template.Part.number ds ∧ Template.Part.number ds ≤ d.sockets.length) ∧
      ∃ s before after, d.sockets[Template.Part.number ds - 1]? = some s ∧
        text.toList = before ++ ((s.shown values).toList ++ after) ∧
          Template.Renders (d.Shows values) pre before ∧
            Template.Renders (d.Shows values) post after
  /-- Every argument has a slot. -/
  every : ∀ n, n < d.sockets.length → ∃ pre ds post,
    Template.Occurs d.message.toList pre ds post ∧ Template.Part.number ds = n + 1

/-- Only a field is read with a default. -/
theorem Socket.isField_of_ofValue {v : Value} {s : Socket} (h : ofValue v = .ok s)
    (hs : s.default ≠ .null) : s.isField = true := by
  cases v with
  | dict es =>
      have hdefault := (ofValue_eq_ok.mp h).default
      cases hk : s.kind with
      | input =>
          rw [hk] at hdefault
          exact absurd (Except.ok.inj hdefault).symm hs
      | number | text | colour => rw [isField, hk]; rfl
  | _ => cases h

namespace Declaration

/-- Whether every slot of the message has the number of an argument, and every argument a slot. -/
structure Numbered (d : Declaration) : Prop where
  slot : ∀ pre ds post, Template.Occurs d.message.toList pre ds post →
    ∃ n, Template.Part.number? ds = some (n + 1) ∧ n < d.sockets.length
  every : ∀ n, n < d.sockets.length → ∃ pre ds post,
    Template.Occurs d.message.toList pre ds post ∧ Template.Part.number? ds = some (n + 1)

theorem slotsMatch_iff {slots : List Nat} {n : Nat} : slotsMatch slots n = true ↔
    (∀ k ∈ slots, 1 ≤ k ∧ k ≤ n) ∧ ∀ k, k < n → k + 1 ∈ slots := by
  simp [slotsMatch]

/-- What is read of a declaration is numbered. -/
theorem DescribedBy.numbered {d : Declaration} {es : List (Key × Value)} (h : d.DescribedBy es) :
    d.Numbered := by
  obtain ⟨ns, hns, hmatch⟩ := h.slots
  obtain ⟨hwithin, hall⟩ := slotsMatch_iff.mp hmatch
  have hnumbers := Template.forall₂_of_slots? hns
  constructor
  · intro pre ds post ho
    obtain ⟨k, hk, hnumber⟩ := exists_of_mem_forall₂ hnumbers.flip
      (Template.mem_slotDigits.mpr ⟨pre, post, ho⟩)
    obtain ⟨hpos, hle⟩ := hwithin k hk
    exact ⟨k - 1, by rw [Nat.sub_add_cancel hpos]; exact hnumber, by omega⟩
  · intro n hn
    obtain ⟨ds, hds, hnumber⟩ := exists_of_mem_forall₂ hnumbers (hall n hn)
    obtain ⟨pre, post, ho⟩ := Template.mem_slotDigits.mp hds
    exact ⟨pre, ds, post, ho, hnumber⟩

/-- The names of what is read can be looked up. -/
theorem DescribedBy.exists_key? {d : Declaration} {es : List (Key × Value)} (h : d.DescribedBy es)
    {s : Socket} (hs : s ∈ d.sockets) : ∃ k, s.name.toKey = .ok k := by
  obtain ⟨names, hnames, -⟩ := h.names
  obtain ⟨k, -, hk⟩ := exists_of_mem_forall₂ (forall₂_of_mapM hnames).flip hs
  exact ⟨k, hk⟩

/-- What stands in a slot is what is shown of its argument. -/
theorem slotText_eq {s : Socket} {k : Key} (hk : s.name.toKey = .ok k)
    (hfield : s.default ≠ .null → s.isField = true) (values : List (Key × Value)) :
    slotText (.dict values) s = .ok (s.shown values) := by
  have hunder : (Value.dict values).under s.name = .ok (Entries.get? values k) := by
    rw [Value.under, hk]
    rfl
  unfold slotText Socket.shown
  rw [hunder, Value.key?_of_toKey hk, Option.bind_some]
  cases Entries.get? values k with
  | some v => rfl
  | none =>
      by_cases hnull : s.default = .null
      · simp [hnull, Bind.bind, Except.bind, Pure.pure, Except.pure]
      · simp [hnull, hfield hnull, Bind.bind, Except.bind, Pure.pure, Except.pure]

theorem describe_dict (d : Declaration) (values : List (Key × Value)) :
    d.describe (.dict values) = (do
      return String.join (← (Template.parts d.message).mapM (d.fill (.dict values)))) := by
  cases values <;> rfl

theorem Shows.unique {d : Declaration} {values : List (Key × Value)} {ds text text' : List Char}
    (h : d.Shows values ds text) (h' : d.Shows values ds text') : text = text' := by
  obtain ⟨s, -, hs, rfl⟩ := h
  obtain ⟨s', -, hs', rfl⟩ := h'
  rw [Option.some.inj (hs.symm.trans hs')]

/-- A slot of a declared message is filled with what is shown of its argument. -/
theorem DescribedBy.fill_slot {d : Declaration} {es : List (Key × Value)} (h : d.DescribedBy es)
    (hfield : ∀ s ∈ d.sockets, s.default ≠ .null → s.isField = true) (values : List (Key × Value))
    {pre ds post : List Char} (ho : Template.Occurs d.message.toList pre ds post) :
    ∃ s : Socket, d.fill (.dict values) (.slot ds) = .ok (s.shown values) ∧
      d.Shows values ds (s.shown values).toList := by
  obtain ⟨n, hnumber, hn⟩ := h.numbered.slot pre ds post ho
  have hs := List.getElem?_eq_getElem hn
  have hmem := List.getElem_mem hn
  obtain ⟨k, hk⟩ := h.exists_key? hmem
  refine ⟨d.sockets[n], ?_, d.sockets[n], ?_, ?_, rfl⟩
  · simp only [fill, hnumber, hs]
    exact slotText_eq hk (hfield _ hmem) values
  · rw [Template.Part.number_of_number? hnumber]
    exact Nat.succ_pos n
  · rw [Template.Part.number_of_number? hnumber]
    exact hs

/-- **What a declared type shows of a block is its message with each slot filled**, whatever values
are given: each slot is there for one of the arguments, and each of these has a slot. -/
theorem exists_describes {v : Value} {d : Declaration} (h : ofValue v = .ok d)
    (values : List (Key × Value)) :
    ∃ text, d.describe (.dict values) = .ok text ∧ d.Describes values text := by
  obtain ⟨es, rfl⟩ : ∃ es, v = .dict es := by
    cases v with
    | dict es => exact ⟨es, rfl⟩
    | _ => cases h
  have hdescribed := ofValue_eq_ok.mp h
  have hfield : ∀ s ∈ d.sockets, s.default ≠ .null → s.isField = true := fun s hs => by
    obtain ⟨u, hu⟩ := (arguments_of_ofValue h).1 s hs
    exact Socket.isField_of_ofValue hu
  have hslot (ds : List Char) (hds : .slot ds ∈ Template.parts d.message) :
      ∃ s : Socket, d.fill (.dict values) (.slot ds) = .ok (s.shown values) ∧
        d.Shows values ds (s.shown values).toList := by
    obtain ⟨pre, post, ho⟩ := Template.mem_split.mp hds
    exact hdescribed.fill_slot hfield values ho
  obtain ⟨ss, hss⟩ := exists_mapM_ok (f := d.fill (.dict values)) fun p hp => by
    cases p with
    | char c => exact ⟨_, rfl⟩
    | slot ds =>
        obtain ⟨s, hs, -⟩ := hslot ds hp
        exact ⟨_, hs⟩
  have hrenders : Template.Renders (d.Shows values) d.message.toList (String.join ss).toList := by
    refine Template.renders_of_mapM (fun _ => rfl) (fun ds hds text htext => ?_) hss
    obtain ⟨s, hs, hshows⟩ := hslot ds hds
    obtain rfl := Except.ok.inj (hs.symm.trans htext)
    exact hshows
  have hunique (other : List Char)
      (hother : Template.Renders (d.Shows values) d.message.toList other) :
      other = (String.join ss).toList :=
    hother.unique hrenders fun _ _ _ ht ht' => ht.unique ht'
  refine ⟨String.join ss, by rw [describe_dict, hss]; rfl, hrenders, hunique,
    fun pre ds post ho => ?_, fun n hn => ?_⟩
  · obtain ⟨n, hnumber, hn⟩ := hdescribed.numbered.slot pre ds post ho
    obtain ⟨before, text, after, htext, ⟨s, hpos, hs, rfl⟩, hbefore, hafter⟩ := hrenders.around ho
    refine ⟨⟨hpos, ?_⟩, s, before, after, hs, htext, hbefore, hafter⟩
    rw [Template.Part.number_of_number? hnumber]
    exact hn
  · obtain ⟨pre, ds, post, ho, hnumber⟩ := hdescribed.numbered.every n hn
    exact ⟨pre, ds, post, ho, Template.Part.number_of_number? hnumber⟩

/-- So it is with the type that mixes colours, when what is written into its text looks like a
slot. -/
theorem exists_describes_mixing : ∃ text,
    Vocabulary.mixing.describe (.dict [(.text "NAME", .text "%1")]) = .ok text ∧
      Vocabulary.mixing.Describes [(.text "NAME", .text "%1")] text :=
  exists_describes Vocabulary.ofValue_mixingEntries _

example : (Vocabulary.mixing.describe (.dict [(.text "NAME", .text "%1")])).toOption =
    some "mix [BASE] with 1 parts of #ff8000 as %1 into [POT]" := by decide +kernel

end Declaration

end Blockwork
