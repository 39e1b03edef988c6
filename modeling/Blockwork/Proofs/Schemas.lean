import Blockwork.Proofs.Hues
import Blockwork.Proofs.Outlining

/-!
# Schemas

A block type in its declared form is read as itself (`Declaration.DescribedBy.ofValue_toValue`), and
so are the types of a vocabulary (`Vocabulary.Defined.define_schema`).  What is read off a
declaration is said once, for arguments and for types (`Socket.DescribedBy`,
`Declaration.DescribedBy`); that the declared form describes the same is then a matter of what is
found under each key.  A key that is left out is one whose absence is read as what was left out; what
is written in another form than it came in, a check of one name, a colour or a hue, is in a form that
is kept.
-/

namespace Blockwork

open Snapshot (keyed)

/-! ### What is read of a declaration -/

namespace Socket

/-- Whether entries describe an argument. -/
structure DescribedBy (s : Socket) (es : List (Key × Value)) : Prop where
  kind : Kind.ofName? ((Entries.get? es "type").getD .null) = some s.kind
  default : defaultOf s.kind es = .ok s.default
  name : Entries.get? es "name" = some s.name
  check : checkOfValue ((Entries.get? es "check").getD .null) = .ok s.check
  min : (Entries.get? es "min").getD .null = s.min
  max : (Entries.get? es "max").getD .null = s.max
  precision : (Entries.get? es "precision").getD .null = s.precision

/-- An argument is read where it is described. -/
theorem ofValue_eq_ok {es : List (Key × Value)} {s : Socket} :
    ofValue (.dict es) = .ok s ↔ s.DescribedBy es := by
  constructor
  · intro h
    unfold ofValue at h
    dsimp only at h
    split at h
    · rename_i kind hkind
      obtain ⟨default, hdefault, h⟩ := exists_of_bind_ok h
      split at h
      · rename_i name hname
        obtain ⟨check, hcheck, h⟩ := exists_of_bind_ok h
        obtain rfl := Except.ok.inj h
        exact ⟨hkind, hdefault, hname, hcheck, rfl, rfl, rfl⟩
      · cases h
    · cases h
  · intro h
    obtain ⟨name, kind, check, default, min, max, precision⟩ := s
    obtain ⟨hkind, hdefault, hname, hcheck, rfl, rfl, rfl⟩ := h
    simp only [ofValue, hkind, hdefault, hname, hcheck, Bind.bind, Except.bind, Pure.pure,
      Except.pure]

end Socket

namespace Declaration

/-- Whether entries describe a block type. -/
structure DescribedBy (d : Declaration) (es : List (Key × Value)) : Prop where
  type : (Entries.get? es "type").getD .null = d.type
  typed : d.type.isTruthy = true
  colour : colourOf d.type ((Entries.get? es "colour").getD (.int 0)) = .ok (d.colour, d.hue)
  sockets : socketsOf ((Entries.get? es "args0").getD (.list [])) = .ok d.sockets
  names : ∃ names, d.sockets.mapM (·.name.toKey) = .ok names ∧ (names.map (·.name)).Nodup
  message : (Entries.get? es "message0").getD (.text "") = .text d.message
  slots : ∃ slots, Template.slots? d.message = some slots ∧ slotsMatch slots d.sockets.length = true
  output : Socket.checkOfValue ((Entries.get? es "output").getD .null) = .ok d.output
  previous : (Entries.get? es "previousStatement").isSome = d.previous
  next : (Entries.get? es "nextStatement").isSome = d.next
  isValue : (Entries.get? es "output").isSome = d.isValue
  tooltip : (Entries.get? es "tooltip").getD (.text "") = d.tooltip
  help : (Entries.get? es "helpUrl").getD (.text "") = d.help

/-- A block type is read where it is described. -/
theorem ofValue_eq_ok {es : List (Key × Value)} {d : Declaration} :
    ofValue (.dict es) = .ok d ↔ d.DescribedBy es := by
  constructor
  · intro h
    unfold ofValue at h
    dsimp only at h
    split at h
    · cases h
    rename_i htyped
    obtain ⟨⟨colour, hue⟩, hcolour, h⟩ := exists_of_bind_ok h
    obtain ⟨sockets, hsockets, h⟩ := exists_of_bind_ok h
    obtain ⟨names, hnames, h⟩ := exists_of_bind_ok h
    split at h
    · cases h
    rename_i hnodup
    split at h
    · rename_i message hmessage
      split at h
      · rename_i slots hslots
        split at h
        · cases h
        rename_i hmatch
        obtain ⟨output, houtput, h⟩ := exists_of_bind_ok h
        obtain rfl := Except.ok.inj h
        exact
          { type := rfl
            typed := by simpa using htyped
            colour := hcolour
            sockets := hsockets
            names := ⟨names, hnames, by simpa using hnodup⟩
            message := hmessage
            slots := ⟨slots, hslots, by simpa using hmatch⟩
            output := houtput
            previous := rfl
            next := rfl
            isValue := rfl
            tooltip := rfl
            help := rfl }
      · cases h
    · cases h
  · intro h
    obtain ⟨type, message, sockets, previous, next, output, isValue, colour, hue, tooltip, help⟩ := d
    obtain ⟨rfl, htyped, hcolour, hsockets, ⟨names, hnames, hnodup⟩, hmessage,
      ⟨slots, hslots, hmatch⟩, houtput, rfl, rfl, rfl, rfl, rfl⟩ := h
    dsimp only at *
    simp only [ofValue, htyped, hcolour, hsockets, hnames, hnodup, hmessage, hslots, hmatch, houtput,
      Bind.bind, Except.bind, Pure.pure, Except.pure]
    simp

end Declaration

theorem Entries.get?_nil {α β : Type} [BEq α] (k : α) : get? ([] : List (α × β)) k = none := rfl

/-! ### What may be declared -/

/-- Whether a value declares a check: nothing, one name, or a list of names. -/
def Value.DeclaresCheck (v : Value) : Prop :=
  v = .null ∨ (∃ s, v = .text s) ∨ ∃ names : List String, v = .list (names.map .text)

/-- Whether a value declares a colour by whole degrees of hue, or by a text. -/
def Value.DeclaresColour (v : Value) : Prop := (∃ i, v.number? = some (.int i)) ∨ ∃ s, v = .text s

/-- Whether a declaration says by names what is accepted and offered, and its colour by whole
degrees or by a text. -/
structure Declaration.Tidy (es : List (Key × Value)) : Prop where
  colour : ((Entries.get? es "colour").getD (.int 0)).DeclaresColour
  output : ((Entries.get? es "output").getD .null).DeclaresCheck
  arguments : ∀ xs, ((Entries.get? es "args0").getD (.list [])).parts = .ok xs →
    ∀ as, .dict as ∈ xs → ((Entries.get? as "check").getD .null).DeclaresCheck

/-! ### Arguments -/

theorem Rgb.ofValue?_hex (c : Rgb) : ofValue? (.text c.hex) = some c := c.ofHex?_hex

theorem Rgb.ofValue_hex (c : Rgb) : ofValue (.text c.hex) = .ok c := by
  rw [ofValue, c.ofValue?_hex]

namespace Socket

theorem Kind.ofName?_name (k : Kind) : Kind.ofName? (.text k.name) = some k := by cases k <;> rfl

/-- A check is read as it was, whether it is written as one name or as a list. -/
theorem checkOfValue_declared {v : Value} {c : Check} (hv : v.DeclaresCheck)
    (h : checkOfValue v = .ok c) : checkOfValue ((c.map checkToValue).getD .null) = .ok c := by
  rcases hv with rfl | ⟨s, rfl⟩ | ⟨names, rfl⟩
  · obtain rfl := Except.ok.inj h
    rfl
  · obtain rfl := Except.ok.inj h
    rfl
  · obtain rfl : some (names.map .text) = c := Except.ok.inj h
    rcases names with _ | ⟨name, _ | ⟨other, names⟩⟩ <;> rfl

theorem get?_optional (key k : String) (v : Value) :
    Entries.get? (optional key v) k = if key = k ∧ v ≠ .null then some v else none := by
  by_cases hv : v = .null
  · simp [optional, hv, Entries.get?]
  · by_cases hk : key = k
    · simp [optional, hv, hk, Entries.get?]
    · simp [optional, hv, hk, Entries.get?]

/-- What is found in the declared form of an argument. -/
theorem exists_toValue (s : Socket) : ∃ es, s.toValue = .dict es ∧
    Entries.get? es "type" = some (.text s.kind.name) ∧ Entries.get? es "name" = some s.name ∧
    Entries.get? es "check" = s.check.map checkToValue ∧
    (∀ key, s.kind.defaultKey? = some key → Entries.get? es key = some s.default) ∧
    Entries.get? es "min" = (if s.min = .null then none else some s.min) ∧
    Entries.get? es "max" = (if s.max = .null then none else some s.max) ∧
    Entries.get? es "precision" = (if s.precision = .null then none else some s.precision) := by
  obtain ⟨name, kind, check, default, min, max, precision⟩ := s
  refine ⟨keyed _, rfl, ?_⟩
  simp only [Snapshot.get?_keyed]
  cases kind <;> cases check <;>
    simp [Entries.get?_append, Entries.get?_cons, get?_optional, Kind.defaultKey?]

theorem getD_ite_null (v : Value) : ((if v = .null then none else some v).getD .null : Value) = v := by
  split
  · rename_i h
    exact h.symm
  · rfl

/-- **An argument in its declared form is read as itself.** -/
theorem DescribedBy.ofValue_toValue {s : Socket} {es : List (Key × Value)} (h : s.DescribedBy es)
    (hc : ((Entries.get? es "check").getD .null).DeclaresCheck) : ofValue s.toValue = .ok s := by
  obtain ⟨fs, hs, htype, hname, hcheck, hdefault, hmin, hmax, hprecision⟩ := s.exists_toValue
  rw [hs, ofValue_eq_ok]
  exact
    { kind := by rw [htype]; exact s.kind.ofName?_name
      default := by
        have hread := h.default
        cases hk : s.kind with
        | input => rwa [hk] at hread
        | number =>
            rw [defaultOf, hdefault _ (by rw [hk]; rfl)]
            rfl
        | text =>
            rw [defaultOf, hdefault _ (by rw [hk]; rfl)]
            rfl
        | colour =>
            rw [hk] at hread
            obtain ⟨c, -, hread⟩ := exists_of_bind_ok hread
            rw [defaultOf, hdefault _ (by rw [hk]; rfl), ← Except.ok.inj hread, Option.getD_some,
              Rgb.ofValue_hex]
            rfl
      name := hname
      check := by rw [hcheck]; exact checkOfValue_declared hc h.check
      min := by rw [hmin, getD_ite_null]
      max := by rw [hmax, getD_ite_null]
      precision := by rw [hprecision, getD_ite_null] }

end Socket

/-! ### Block types -/

namespace Declaration

theorem get?_flag {c : Bool} (key k : String) (v : Value) :
    Entries.get? (if c then [(key, v)] else []) k = if key = k ∧ c = true then some v else none := by
  cases c with
  | false => simp [Entries.get?]
  | true => by_cases hk : key = k <;> simp [hk, Entries.get?]

/-- What is found in the declared form of a block type. -/
theorem exists_toValue (d : Declaration) : ∃ es, d.toValue = .dict es ∧
    Entries.get? es "type" = some d.type ∧ Entries.get? es "message0" = some (.text d.message) ∧
    Entries.get? es "args0" = some (.list (d.sockets.map Socket.toValue)) ∧
    Entries.get? es "previousStatement" = (if d.previous then some .null else none) ∧
    Entries.get? es "nextStatement" = (if d.next then some .null else none) ∧
    Entries.get? es "output" =
      (if d.isValue then some ((d.output.map Socket.checkToValue).getD .null) else none) ∧
    Entries.get? es "colour" = some ((d.hue.map Value.float).getD (.text d.colour.hex)) ∧
    Entries.get? es "tooltip" = some d.tooltip ∧ Entries.get? es "helpUrl" = some d.help := by
  obtain ⟨type, message, sockets, previous, next, output, isValue, colour, hue, tooltip, help⟩ := d
  refine ⟨keyed _, rfl, ?_⟩
  simp only [Snapshot.get?_keyed]
  cases output <;> cases hue <;>
    simp [Entries.get?_append, Entries.get?_cons, Entries.get?_nil, get?_flag]

/-- A colour that was read is read again as it was: by its hue, where it came of one. -/
theorem colourOf_declared {type v : Value} {c : Rgb} {hue : Option Binary64}
    (hv : v.DeclaresColour) (h : colourOf type v = .ok (c, hue)) :
    colourOf type ((hue.map Value.float).getD (.text c.hex)) = .ok (c, hue) := by
  rcases hv with ⟨i, hi⟩ | ⟨s, rfl⟩
  · unfold colourOf at h
    rw [hi] at h
    obtain ⟨x, hx, h⟩ := exists_of_bind_ok h
    obtain ⟨c', hc, h⟩ := exists_of_bind_ok h
    cases Except.ok.inj h
    have hwhole : x.IsIntegral := by
      refine Binary64.isIntegral_of_ofInt? (i := i) ?_
      change Number.ofInt i = .ok x at hx
      unfold Number.ofInt at hx
      split at hx
      · rename_i y hy
        exact Except.ok.inj hx ▸ hy
      · cases hx
    change (do
      let hue := (← Number.toFloat (.float (x.modulo fullTurn))).modulo fullTurn
      return (← Rgb.ofHue (.float hue), some hue)) = _
    simp only [Number.toFloat, Bind.bind, Except.bind, hwhole.modulo_modulo_fullTurn, hc]
    rfl
  · simp only [colourOf, Value.number?] at h
    split at h
    · cases Except.ok.inj h
      simp only [colourOf, Option.map_none, Option.getD_none, Value.number?, c.ofValue?_hex]
    · cases h

theorem socketsOf_map_toValue {ss : List Socket} (h : ∀ s ∈ ss, Socket.ofValue s.toValue = .ok s) :
    socketsOf (.list (ss.map Socket.toValue)) = .ok ss := by
  change (ss.map Socket.toValue).mapM Socket.ofValue = .ok ss
  induction ss with
  | nil => rfl
  | cons s ss ih =>
      rw [List.map_cons, List.mapM_cons, h s List.mem_cons_self,
        ih fun s' hs => h s' (List.mem_cons_of_mem _ hs)]
      rfl

/-- Each argument of a declaration is described by an item of it. -/
theorem DescribedBy.exists_argument {d : Declaration} {es : List (Key × Value)}
    (h : d.DescribedBy es) {s : Socket} (hs : s ∈ d.sockets) :
    ∃ xs as, ((Entries.get? es "args0").getD (.list [])).parts = .ok xs ∧ .dict as ∈ xs ∧
      s.DescribedBy as := by
  obtain ⟨xs, hxs, hread⟩ := exists_of_bind_ok h.sockets
  obtain ⟨x, hx, hread⟩ := exists_of_mem_forall₂ (forall₂_of_mapM hread) hs
  cases x with
  | dict as => exact ⟨xs, as, hxs, hx, Socket.ofValue_eq_ok.mp hread⟩
  | _ => cases hread

/-- **A block type in its declared form is read as itself.** -/
theorem DescribedBy.ofValue_toValue {d : Declaration} {es : List (Key × Value)}
    (h : d.DescribedBy es) (ht : Tidy es) : ofValue d.toValue = .ok d := by
  obtain ⟨fs, hd, htype, hmessage, hargs, hprevious, hnext, houtput, hcolour, htooltip, hhelp⟩ :=
    d.exists_toValue
  rw [hd, ofValue_eq_ok]
  exact
    { type := by rw [htype]; rfl
      typed := h.typed
      colour := by rw [hcolour]; exact colourOf_declared ht.colour h.colour
      sockets := by
        rw [hargs]
        refine socketsOf_map_toValue fun s hs => ?_
        obtain ⟨xs, as, hxs, has, hs⟩ := h.exists_argument hs
        exact hs.ofValue_toValue (ht.arguments xs hxs as has)
      names := h.names
      message := by rw [hmessage]; rfl
      slots := h.slots
      output := by
        have hread := h.output
        have hvalue := h.isValue
        rw [houtput]
        split
        · exact Socket.checkOfValue_declared ht.output hread
        · rename_i hno
          rw [← hvalue, Bool.not_eq_true, Option.isSome_eq_false_iff, Option.isNone_iff_eq_none] at hno
          rw [hno] at hread
          exact hread
      previous := by rw [hprevious]; cases d.previous <;> rfl
      next := by rw [hnext]; cases d.next <;> rfl
      isValue := by rw [houtput]; cases d.isValue <;> rfl
      tooltip := by rw [htooltip]; rfl
      help := by rw [hhelp]; rfl }

end Declaration

/-! ### Vocabularies -/

namespace Vocabulary

/-- Whether a vocabulary comes of defining tidily declared types, batch after batch; a batch that
fails leaves the types before the one that cannot be added. -/
inductive Defined : Vocabulary → Prop where
  | empty : Defined {}
  | batch {v : Vocabulary} {xs : List Value} (hv : Defined v)
      (hx : ∀ es d, .dict es ∈ xs → Declaration.ofValue (.dict es) = .ok d → Declaration.Tidy es) :
      Defined (v.define xs).1

theorem eq_of_declarations {v w : Vocabulary} (h : v.declarations = w.declarations) : v = w := by
  cases v
  cases w
  cases h
  rfl

/-- What it takes to add a type. -/
theorem add_eq_ok {v w : Vocabulary} {d : Declaration} :
    v.add d = .ok w ↔ d.typeName? ≠ none ∧ d.typeName? ∉ v.declarations.map (·.typeName?) ∧
      w.declarations = v.declarations ++ [d] := by
  unfold add
  split
  · rename_i hnone
    exact ⟨by rintro ⟨⟩, fun h => absurd hnone h.1⟩
  · rename_i hsome
    split
    · rename_i hmem
      exact ⟨by rintro ⟨⟩, fun h => absurd hmem h.2.1⟩
    · rename_i hnew
      constructor
      · intro h
        obtain rfl := Except.ok.inj h
        exact ⟨hsome, hnew, rfl⟩
      · rintro ⟨-, -, hw⟩
        exact congrArg Except.ok (eq_of_declarations hw.symm)

/-- What holds of all types that are declared, and of each one that is defined, holds of all types
that are declared in the end. -/
theorem define_induct {P : Declaration → Prop} {xs : List Value}
    (hx : ∀ x ∈ xs, ∀ d, Declaration.ofValue x = .ok d → d.typeName? ≠ none → P d) {v : Vocabulary}
    (hv : ∀ d ∈ v.declarations, P d) : ∀ d ∈ (v.define xs).1.declarations, P d := by
  induction xs generalizing v with
  | nil => exact hv
  | cons x xs ih =>
      unfold define
      split
      · exact hv
      · rename_i d hd
        split
        · exact hv
        · rename_i w hw
          obtain ⟨htype, -, hw⟩ := add_eq_ok.mp hw
          have hgrown : ∀ d ∈ w.declarations, P d := by
            rw [hw]
            intro d' hd'
            rcases List.mem_append.mp hd' with hd' | hd'
            · exact hv d' hd'
            · obtain rfl := List.mem_singleton.mp hd'
              exact hx x List.mem_cons_self d' hd htype
          have hrest := ih (fun x hx' => hx x (List.mem_cons_of_mem _ hx')) hgrown
          split
          · rename_i hdefine
            rwa [hdefine] at hrest
          · rename_i hdefine
            rwa [hdefine] at hrest

/-- The types that are defined can be looked up, and are read back. -/
theorem Defined.readable {v : Vocabulary} (h : Defined v) :
    ∀ d ∈ v.declarations, d.typeName? ≠ none ∧ Declaration.ofValue d.toValue = .ok d := by
  induction h with
  | empty => exact fun _ hd => absurd hd List.not_mem_nil
  | batch _ hx ih =>
      refine define_induct (fun x hmem d hd htype => ⟨htype, ?_⟩) ih
      cases x with
      | dict es => exact (Declaration.ofValue_eq_ok.mp hd).ofValue_toValue (hx es d hmem hd)
      | _ => cases hd

/-- Types that can be read back are defined in the order in which they are given, as long as they
are told apart. -/
theorem define_map_toValue {ds : List Declaration} {v w : Vocabulary}
    (hd : ∀ d ∈ ds, d.typeName? ≠ none ∧ Declaration.ofValue d.toValue = .ok d)
    (hw : w.declarations = v.declarations ++ ds) :
    v.define (ds.map Declaration.toValue) = (w, .ok (ds.map (·.type))) := by
  induction ds generalizing v with
  | nil =>
      rw [List.append_nil] at hw
      rw [eq_of_declarations hw]
      rfl
  | cons d ds ih =>
      obtain ⟨htype, hread⟩ := hd d List.mem_cons_self
      have hnew : d.typeName? ∉ v.declarations.map (·.typeName?) := by
        have hdistinct := w.distinct
        rw [hw, List.map_append, List.nodup_append] at hdistinct
        exact fun hmem => hdistinct.2.2 _ hmem _ List.mem_cons_self rfl
      obtain ⟨u, hu⟩ : ∃ u, v.add d = .ok u := by
        unfold add
        rw [if_neg htype, dif_neg hnew]
        exact ⟨_, rfl⟩
      have hrest := ih (fun d' hd' => hd d' (List.mem_cons_of_mem _ hd')) (v := u) (by
        rw [(add_eq_ok.mp hu).2.2, hw, List.append_assoc]
        rfl)
      rw [List.map_cons, define, hread]
      dsimp only
      rw [hu]
      dsimp only
      rw [hrest]
      rfl

/-- **The schema of a vocabulary defines the same vocabulary.** -/
theorem Defined.define_schema {v : Vocabulary} (h : Defined v) :
    define {} v.schema = (v, .ok v.types) :=
  define_map_toValue h.readable rfl

/-- **Schemas are read back as they were.**  A block type that is read from tidy entries is read from
its declared form as itself; and the schema of a vocabulary that comes of such types, defined in an
empty one, gives the same types in the same order. -/
theorem schemas_read_back :
    (∀ es d, Declaration.Tidy es → Declaration.ofValue (.dict es) = .ok d →
      Declaration.ofValue d.toValue = .ok d) ∧
    ∀ v : Vocabulary, v.Defined → define {} v.schema = (v, .ok v.types) :=
  ⟨fun _ _ ht hd => (Declaration.ofValue_eq_ok.mp hd).ofValue_toValue ht,
    fun _ h => h.define_schema⟩

/-! ### A type with arguments of every kind -/

/-- The declared form of a type that mixes colours. -/
def mixingEntries : List (Key × Value) :=
  [("type", .text "mix"), ("message0", .text "mix %1 with %2 parts of %3 as %4 into %5"),
    ("args0", .list
      [.record [("type", .text "input_value"), ("name", .text "BASE"),
          ("check", .list [.text "Colour", .text "String"])],
        .record [("type", .text "field_number"), ("name", .text "PARTS"), ("value", .int 1),
          ("min", .int 0)],
        .record [("type", .text "field_colour"), ("name", .text "PAINT"),
          ("colour", .text "FF8000")],
        .record [("type", .text "field_input"), ("name", .text "NAME")],
        .record [("type", .text "input_value"), ("name", .text "POT"), ("check", .list [])]]),
    ("previousStatement", .null), ("output", .null), ("colour", .int (-30))]

/-- A type that mixes colours. -/
def mixing : Declaration where
  type := .text "mix"
  message := "mix %1 with %2 parts of %3 as %4 into %5"
  sockets :=
    [{ name := .text "BASE", kind := .input, check := some [.text "Colour", .text "String"] },
      { name := .text "PARTS", kind := .number, default := .int 1, min := .int 0 },
      { name := .text "PAINT", kind := .colour, default := .text "#ff8000" },
      { name := .text "NAME", kind := .text, default := .text "" },
      { name := .text "POT", kind := .input, check := some [] }]
  previous := true
  isValue := true
  colour := ⟨⟨0xa5, by decide⟩, ⟨0x5b, by decide⟩, ⟨0x80, by decide⟩⟩
  hue := hueOf 330

theorem ofValue_mixingEntries : Declaration.ofValue (.dict mixingEntries) = .ok mixing := by
  have hread : (Declaration.ofValue (.dict mixingEntries)).toOption = some mixing := by
    decide +kernel
  revert hread
  cases Declaration.ofValue (.dict mixingEntries) with
  | error _ => exact nofun
  | ok d => exact fun hread => congrArg Except.ok (Option.some.inj hread)

theorem tidy_mixingEntries : Declaration.Tidy mixingEntries where
  colour := .inl ⟨-30, rfl⟩
  output := .inl rfl
  arguments xs hxs as has := by
    obtain rfl := Except.ok.inj hxs
    simp only [List.mem_cons, List.not_mem_nil, or_false] at has
    rcases has with h | h | h | h | h
    · cases h
      exact .inr (.inr ⟨["Colour", "String"], rfl⟩)
    · cases h
      exact .inl rfl
    · cases h
      exact .inl rfl
    · cases h
      exact .inl rfl
    · cases h
      exact .inr (.inr ⟨[], rfl⟩)

/-- That type alone makes a vocabulary that is read back. -/
theorem schemas_read_back_mixing :
    Declaration.ofValue mixing.toValue = .ok mixing ∧
      ∃ v : Vocabulary, v.Defined ∧ v.types = [.text "mix"] ∧
        define {} v.schema = (v, .ok v.types) := by
  have hdefined : Defined (define {} [.dict mixingEntries]).1 := by
    refine .batch .empty fun es d hmem _ => ?_
    obtain rfl := Value.dict.inj (List.mem_singleton.mp hmem)
    exact tidy_mixingEntries
  exact ⟨schemas_read_back.1 mixingEntries mixing tidy_mixingEntries ofValue_mixingEntries,
    _, hdefined, by decide +kernel, schemas_read_back.2 _ hdefined⟩

end Vocabulary

end Blockwork
