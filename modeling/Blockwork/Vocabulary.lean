import Blockwork.Declaration.Basic

/-!
# Vocabularies

The block types a workspace knows, in the order in which they were declared, each type once.  The
stock vocabulary has blocks for output, waiting, texts, colours and numbers.
-/

namespace Blockwork

/-- A list of declarations with different types. -/
structure Vocabulary where
  declarations : List Declaration := []
  distinct : (declarations.map (·.typeName?)).Nodup := by decide

namespace Vocabulary

/-- The declaration of a type. -/
def find? (v : Vocabulary) (type : Key) : Option Declaration :=
  v.declarations.find? fun d => decide (d.typeName? = some type.name)

/-- Whether a type is declared. -/
def has (v : Vocabulary) (type : Key) : Bool := (v.find? type).isSome

/-- The declaration of a type that has to be declared. -/
def get (v : Vocabulary) (type : Key) : Except Error Declaration :=
  match v.find? type with
  | some d => .ok d
  | none => .error (.unknownType (.ofKey type))

/-- The declared types, in order. -/
def types (v : Vocabulary) : List Value := v.declarations.map (·.type)

/-- The declared forms, in order. -/
def schema (v : Vocabulary) : List Value := v.declarations.map Declaration.toValue

/-- A vocabulary with one more type, which has to be one that can be looked up. -/
def add (v : Vocabulary) (d : Declaration) : Except Error Vocabulary :=
  if d.typeName? = none then .error (.failure .wrongType)
  else if h : d.typeName? ∈ v.declarations.map (·.typeName?) then
    .error (.violation (.alreadyDefined d.type))
  else
    .ok ⟨v.declarations ++ [d], by
      rw [List.map_append, List.nodup_append]
      refine ⟨v.distinct, by simp, ?_⟩
      intro a ha b hb
      simp only [List.map_cons, List.map_nil, List.mem_singleton] at hb
      rintro rfl
      exact h (hb ▸ ha)⟩

/-- Adds types in declared form, one after the other up to the first that cannot be added; the ones
before it stay.  The answer is the list of the types added. -/
def define (v : Vocabulary) : List Value → Vocabulary × Except Error (List Value)
  | [] => (v, .ok [])
  | x :: xs =>
    match Declaration.ofValue x with
    | .error e => (v, .error e)
    | .ok d =>
      match v.add d with
      | .error e => (v, .error e)
      | .ok w =>
        match w.define xs with
        | (w, .ok types) => (w, .ok (d.type :: types))
        | (w, .error e) => (w, .error e)

/-- Adds the types that are the parts of a value. -/
def defineAll (v : Vocabulary) (types : Value) : Vocabulary × Except Error (List Value) :=
  match types.parts with
  | .error e => (v, .error e)
  | .ok xs => v.define xs

/-- The vocabulary of a list of types in declared form. -/
def ofValues (xs : List Value) : Except Error Vocabulary :=
  match define {} xs with
  | (v, .ok _) => .ok v
  | (_, .error e) => .error e

/-! ### The stock vocabulary -/

/-- A hue in double precision. -/
def hueOf (degrees : Nat) : Option Binary64 := some (Decimal.value false degrees 0)

/-- A socket for one type of value. -/
def inputOf (name check : String) : Socket :=
  { name := .text name, kind := .input, check := some [.text check] }

/-- Writes a text in a colour to the output. -/
def addText : Declaration where
  type := .text "add_text"
  message := "Add text %1 with color %2"
  sockets := [inputOf "TEXT" "String", inputOf "COLOR" "Colour"]
  previous := true
  next := true
  colour := ⟨0x5b, 0xa5, 0x8c⟩
  hue := hueOf 160

/-- Waits for a number of seconds. -/
def wait : Declaration where
  type := .text "wait"
  message := "Wait %1 seconds"
  sockets :=
    [{ name := .text "SECONDS", kind := .number, default := .int 1, min := .int 0
       precision := .int 1 }]
  previous := true
  next := true
  colour := ⟨0x5b, 0x67, 0xa5⟩
  hue := hueOf 230
  tooltip := .text "Waits for the specified number of seconds."

/-- A text. -/
def text : Declaration where
  type := .text "text"
  message := "\" %1 \""
  sockets := [{ name := .text "TEXT", kind := .text, default := .text "" }]
  output := some [.text "String"]
  isValue := true
  colour := ⟨0x5b, 0xa5, 0x8c⟩
  hue := hueOf 160
  tooltip := .text "A letter, word, or line of text."

/-- Two texts joined. -/
def textJoin : Declaration where
  type := .text "text_join"
  message := "join %1 %2"
  sockets := [inputOf "A" "String", inputOf "B" "String"]
  output := some [.text "String"]
  isValue := true
  colour := ⟨0x5b, 0xa5, 0x8c⟩
  hue := hueOf 160
  tooltip := .text "Create a piece of text by joining two pieces of text."

/-- A colour from a palette. -/
def colourPicker : Declaration where
  type := .text "colour_picker"
  message := "%1"
  sockets := [{ name := .text "COLOUR", kind := .colour, default := .text "#ff0000" }]
  output := some [.text "Colour"]
  isValue := true
  colour := ⟨0xa5, 0x74, 0x5b⟩
  hue := hueOf 20
  tooltip := .text "Choose a colour from the palette."

/-- A colour from its channels. -/
def colourRgb : Declaration where
  type := .text "colour_rgb"
  message := "colour with red %1 green %2 blue %3"
  sockets := [inputOf "RED" "Number", inputOf "GREEN" "Number", inputOf "BLUE" "Number"]
  output := some [.text "Colour"]
  isValue := true
  colour := ⟨0xa5, 0x74, 0x5b⟩
  hue := hueOf 20
  tooltip := .text
    "Create a colour with the specified amount of red, green, and blue (0 - 255)."

/-- A number. -/
def mathNumber : Declaration where
  type := .text "math_number"
  message := "%1"
  sockets := [{ name := .text "NUM", kind := .number, default := .int 0 }]
  output := some [.text "Number"]
  isValue := true
  colour := ⟨0x5b, 0x67, 0xa5⟩
  hue := hueOf 230
  tooltip := .text "A number."

/-- The stock vocabulary. -/
def stock : Vocabulary where
  declarations := [addText, wait, text, textJoin, colourPicker, colourRgb, mathNumber]

end Vocabulary

end Blockwork
