import Blockwork.Json.Reader
import Blockwork.Store.Host
import Blockwork.Value.Parts

/-!
# Slots

Texts under keys, kept in memory, in one JSON file, or in a database file.  The JSON file is an
object that is read and written as a whole; what is in it besides texts is kept as it is.
-/

namespace Blockwork

/-- Where slots are kept. -/
inductive Slots where
  | memory (number : Nat)
  | json (path : String)
  | database (path : String)
  /-- Holds nothing and cannot be written. -/
  | broken
  deriving DecidableEq, Repr

/-- An action that uses the host. -/
abbrev HostAction := EStateM Error Host

namespace Slots

/-- The name of a kind of slots. -/
def name : Slots → String
  | .memory _ => "MemorySlotStore"
  | .json _ => "JsonFileSlotStore"
  | .database _ => "SqliteSlotStore"
  | .broken => "BrokenSlotStore"

/-! ### JSON files -/

/-- The text of a file. -/
def fileText (path : String) (h : Host) : Except Failure String := do
  match ← h.disk.read path with
  | .text s => return s
  | _ => throw .malformedBytes

/-- The entries of a slot file; none when there is no file. -/
def readFile (path : String) (h : Host) : Except Error (List (Key × Value)) :=
  if h.disk.holds path then
    match fileText path h with
    | .error f => .error (.damage (.file path f))
    | .ok s =>
      match Json.readChars s.toList with
      | .error .malformedJson => .error (.damage (.file path .malformedJson))
      | .error f => .error (.failure f)
      | .ok (.dict es) => .ok es
      | .ok _ => .error (.damage (.fileShape path))
  else .ok []

/-- Changes the disk. -/
def onDisk (t : Disk.Task) : HostAction Unit := fun h =>
  match t h.disk with
  | .ok () disk => .ok () { h with disk }
  | .error e disk => .error (.failure e) { h with disk }

/-- Writes the entries of a slot file, first beside it, so that no half-written file is left. -/
def writeFile (path : String) (es : List (Key × Value)) : HostAction Unit := do
  match Json.lines (.dict es) with
  | .error e => throw e
  | .ok s =>
    let beside := path ++ ".tmp"
    onDisk (Disk.write beside (.text s))
    onDisk (Disk.replace beside path)

/-! ### Databases -/

/-- Whether a file becomes a database when it is opened as one: it is empty, or a single byte. -/
def isUnwritten : Content → Bool
  | .text s => s.utf8ByteSize ≤ 1
  | .bytes raw => raw.length ≤ 1
  | .slots _ => false

/-- The path of a database that lies nowhere: each time it is opened it is another one, without
rows, and what is put into it is lost. -/
def fleeting : String := ":memory:"

/-- The rows of a database, with its place if it lies on the disk; a file that is missing or not yet
written becomes one.  Where its name is so long that no journal can lie beside it, it cannot be
written. -/
def openDatabase (path : String) :
    EStateM Failure Host (Option Place × List (String × String)) := do
  if path = fleeting then return (none, [])
  let h ← get
  match h.disk.locateDatabase path with
  | .error f => throw f
  | .ok place =>
    match (h.disk.walk [] place).bind h.disk.readAt with
    | .ok (.slots rows) => return (some place, rows)
    | .ok c => if isUnwritten c then create h place c else throw .notDatabase
    | .error .missingFile =>
      if h.disk.isDirectory place.dropLast then create h place (.text "") else throw .cannotOpen
    | .error _ => throw .cannotOpen
where
  /-- Begins a database without rows; `c` is what the file holds before that. -/
  create (h : Host) (place : Place) (c : Content) :
      EStateM Failure Host (Option Place × List (String × String)) := do
    let isLong := Disk.databaseNameLimit < (place.getLast?.getD "").utf8ByteSize
    set { h with disk := h.disk.put place (if isLong then c else .slots []) }
    if isLong then throw .cannotOpen else return (some place, [])

/-- Whether a whole number fits into eight bytes. -/
def fits (i : Int) : Bool := -0x8000000000000000 ≤ i && i ≤ 0x7fffffffffffffff

/-- Numbers as keys in databases. -/
def columnLayout : Decimal.Layout := ⟨-4, 15, 2, true, "", "Inf"⟩

/-- How many digits of a number are kept in a key. -/
def columnDigits : Nat := 15

/-- The text that stands for a key in a database; nothing is found under `null`, or under what is
not a number. -/
def columnOf : Value → Except Failure (Option String)
  | .null | .float (.nan _) => .ok none
  | .bool b => .ok (some (Decimal.integer b.toNat))
  | .int i => if fits i then .ok (some (Decimal.integer i)) else .error .overflow
  | .float x => .ok (some (Decimal.textWithin columnLayout columnDigits x))
  | .text s => .ok (some s)
  | .list _ | .dict _ => .error .unsupportedKey

/-- Opens a database and changes its rows. -/
def changeRows (path : String) (key : Value)
    (f : List (String × String) → String → List (String × String)) : HostAction Unit := fun h =>
  match openDatabase path h with
  | .ok (place, rows) h =>
    match columnOf key with
    | .ok column =>
      match place, column with
      | some place, some column =>
        .ok () { h with disk := h.disk.put place (.slots (f rows column)) }
      | _, _ => .ok () h
    | .error e => .error (.failure e) h
  | .error e h => .error (.failure e) h

/-! ### Operations

Only what can be looked up is a key, but it is looked at late: a slot file is read and a database
is opened before. -/

/-- The text under a key, if there is one. -/
def get (s : Slots) (key : Value) : HostAction (Option String) := fun h =>
  match s with
  | .memory n =>
    match key.toKey with
    | .ok k => .ok (Entries.get? (h.memory n) k) h
    | .error e => .error e h
  | .broken => .ok none h
  | .json path =>
    match readFile path h, key.toKey with
    | .error e, _ | .ok _, .error e => .error e h
    | .ok es, .ok k =>
      match (Entries.get? es k).getD .null with
      | .text s => .ok (some s) h
      | .null => .ok none h
      | _ => .error (.damage (.slotShape k path)) h
  | .database path =>
    match openDatabase path h with
    | .ok (_, rows) h =>
      match columnOf key with
      | .ok column => .ok (column.bind (Entries.get? rows ·)) h
      | .error f => .error (unreadable path f) h
    | .error f h => .error (unreadable path f) h
where
  /-- The error for a failure to read a database. -/
  unreadable (path : String) (f : Failure) : Error :=
    if f.isDatabase then .damage (.database path f) else .failure f

/-- Puts a text under a key.  A slot file that is not readable is begun anew. -/
def put (s : Slots) (key : Value) (value : String) : HostAction Unit := fun h =>
  match s with
  | .memory n =>
    match key.toKey with
    | .ok k => .ok () (h.setMemory n (Entries.put (h.memory n) k value))
    | .error e => .error e h
  | .broken => .error (.failure .storage) h
  | .json path =>
    match readFile path h with
    | .ok es => putInto path es h
    | .error (.damage _) =>
      putInto path [] (h.note .warning .persistence ("Overwriting unreadable slot file " ++ path))
    | .error e => .error e h
  | .database path => changeRows path key (Entries.put · · value) h
where
  /-- Writes a slot file with one more text. -/
  putInto (path : String) (es : List (Key × Value)) : HostAction Unit := fun h =>
    match key.toKey with
    | .ok k => writeFile path (Entries.put es k (.text value)) h
    | .error e => .error e h

/-- Removes the text under a key, if there is one.  Where there are no slots at all, the key is not
looked at. -/
def delete (s : Slots) (key : Value) : HostAction Unit := fun h =>
  match s with
  | .memory n =>
    match key.toKey with
    | .ok k => .ok () (h.setMemory n (Entries.erase (h.memory n) k))
    | .error e => if (h.memory n).isEmpty then .ok () h else .error e h
  | .broken => .ok () h
  | .json path =>
    match readFile path h, key.toKey with
    | .error e, _ => .error e h
    | .ok es, .error e => if es.isEmpty then .ok () h else .error e h
    | .ok es, .ok k =>
      if (Entries.get? es k).getD .null = .null then .ok () h
      else writeFile path (Entries.erase es k) h
  | .database path => changeRows path key Entries.erase h

end Slots

end Blockwork
