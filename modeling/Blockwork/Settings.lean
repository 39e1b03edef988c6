import Blockwork.Colour.Shade
import Blockwork.Entries
import Blockwork.Text.Lower

/-!
# Settings

How one session is to run: how blocks are lightened, where the workspace is stored, and whether a
new cycle ends the older ones.  Each setting comes from the environment, or else from a default;
settings that make no sense are refused, the first of several faults with its own error.
-/

namespace Blockwork

/-- Where a workspace is stored. -/
inductive Backend where
  | memory
  | sqlite
  | json
  deriving DecidableEq, Repr

namespace Backend

/-- The name of a backend. -/
def name : Backend → String
  | .memory => "memory"
  | .sqlite => "sqlite"
  | .json => "json"

/-- The backend with a name; only a text is one. -/
def ofName? : Value → Option Backend
  | .text "memory" => some .memory
  | .text "sqlite" => some .sqlite
  | .text "json" => some .json
  | _ => none

/-- The file a backend uses by default. -/
def defaultFile : Backend → String
  | .json => "/data/workspace.json"
  | _ => "/data/workspace.db"

end Backend

/-- The key a workspace is stored under by default. -/
def defaultKey : String := "mainWorkspace"

/-- The settings of a session.  Path, key and the last one are kept as given. -/
structure Settings where
  policy : Policy := .rgb
  /-- The amount by which channels are raised, a number from 0 to 255. -/
  delta : Value := Shade.defaultDelta
  backend : Backend := .sqlite
  path : Value := .text ""
  key : Value := .text defaultKey
  /-- Counts as something if a new cycle ends the older ones. -/
  supersede : Value := .bool true

namespace Settings

/-- Whether a number lies from 0 to 255. -/
def deltaFits (delta : Value) : Except Error Bool := do
  let n ← delta.toNumber
  return (Number.int 0).le n && n.le (.int 255)

/-- Settings by name.  Where no path is given, a file below the directory `home` is used. -/
def make (home : String) (policy delta backend path key supersede : Value) :
    Except Error Settings := do
  let some policy := Policy.ofValue? policy
    | throw (.misconfiguration (.unknownPolicy policy true))
  if !(← deltaFits delta) then throw (.misconfiguration (.deltaOutOfRange delta))
  let some backend := Backend.ofName? backend
    | throw (.misconfiguration (.unknownBackend backend))
  if !key.isTruthy then throw (.misconfiguration .emptyKey)
  let path :=
    if !path.isTruthy && backend != .memory then .text (home ++ backend.defaultFile) else path
  return { policy, delta, backend, path, key, supersede }

/-- Whether a new cycle ends the older ones. -/
def supersedes (s : Settings) : Bool := s.supersede.isTruthy

/-- A setting from the environment, without the blanks around it, unless it is absent or blank; only
a text can be read. -/
def found? (environment : List (Key × Value)) (name : Key) : Except Error (Option String) :=
  match (Entries.get? environment name).getD (.text "") with
  | .text s =>
    let found := Text.trim s
    .ok (if found.isEmpty then none else some found)
  | _ => .error (.failure .wrongShape)

/-- A setting from the environment, or its default. -/
def resolve (environment : List (Key × Value)) (name : Key) (default : Value) :
    Except Error Value := do
  return ((← found? environment name).map .text).getD default

/-- The name of a variable of the process, which only a text is. -/
def variableName (name : Value) : Except Error Key :=
  match name with
  | .text s => .ok (.text s)
  | _ => .error (.failure .wrongType)

/-- The environment of a process where a variable has a value, or has none.  Both are texts without
the character 0, and the name is not empty and has no equals sign in it. -/
def assign (name value : Value) : Except Error (List (Key × Value)) :=
  match name, value with
  | .text _, .null => .ok []
  | .text s, .text t =>
    if s.contains '\x00' || t.contains '\x00' || s.contains '=' then .error (.failure .badValue)
    else if s.isEmpty then .error (.failure .storage)
    else .ok [(.text s, .text t)]
  | _, _ => .error (.failure .wrongType)

/-- A truth value by name. -/
def truth? (s : String) : Option Bool :=
  if ["1", "true", "yes", "on"].contains s then some true
  else if ["0", "false", "no", "off"].contains s then some false
  else none

/-- The settings that an environment asks for. -/
def ofEnvironment (home : String) (environment : List (Key × Value)) :
    Except Error Settings := do
  let setting (name default : String) : Except Error String := do
    return (← found? environment name).getD default
  let delta ← setting "BLOCKIDE_LIGHTEN_DELTA" "55"
  let some number := Decimal.readInteger? delta
    | throw (.misconfiguration (.deltaNotInteger delta))
  let stale := Text.lower (← setting "BLOCKIDE_SUPERSEDE_STALE" "1")
  let some supersede := truth? stale | throw (.misconfiguration (.notBoolean stale))
  let policy := Text.lower (← setting "BLOCKIDE_COLOUR_POLICY" "rgb")
  let backend := Text.lower (← setting "BLOCKIDE_STORAGE_BACKEND" "sqlite")
  let path ← setting "BLOCKIDE_STORAGE_PATH" ""
  let key ← setting "BLOCKIDE_STORAGE_KEY" defaultKey
  make home (.text policy) (.int number) (.text backend) (.text path) (.text key) (.bool supersede)

/-- The way to lighten blocks. -/
def shade (s : Settings) : Shade := ⟨s.policy, s.delta⟩

end Settings

end Blockwork
