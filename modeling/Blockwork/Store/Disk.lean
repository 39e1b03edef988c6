import Std.Data.HashSet.Basic
import Blockwork.Entries
import Blockwork.Error

/-!
# Disks

Files and directories by path, as far as stores see them.  A path is walked name by name from the
outermost directory (`Disk.walk`), so that several paths may lead to the same place; every name but
the last has to be that of a directory.  Some paths are only read, without a look at what is on the
way (`Place.ofPath`).  A file holds a text, bytes that are no text, or a database of slots.
-/

namespace Blockwork

/-- What a file holds. -/
inductive Content where
  | text (s : String)
  /-- Bytes that do not spell a text. -/
  | bytes (raw : List UInt8)
  /-- A database of slots. -/
  | slots (rows : List (String × String))
  deriving DecidableEq

/-- A place on a disk: the names that lead to it. -/
abbrev Place := List String

namespace Place

/-- Whether a name leads nowhere: it is missing, or one point. -/
def isIdle (name : String) : Bool := name = "" || name = "."

/-- The place that one more name leads to; two points lead to the place before. -/
def step (place : Place) (name : String) : Place :=
  if isIdle name then place
  else if name = ".." then place.dropLast
  else place ++ [name]

/-- The names in a path. -/
def namesOf (path : String) : List String := path.splitOn "/"

/-- The place that a path leads to, if all directories on the way are there. -/
def ofPath (path : String) : Place := (namesOf path).foldl step []

/-- What leads to a place, and to each place on the way, the outermost first. -/
def way (names : List String) : List (List String) :=
  (List.range names.length).map fun n => names.take (n + 1)

end Place

/-- Files by place, and directories that were made. -/
structure Disk where
  files : List (Place × Content) := []
  directories : Std.HashSet Place := ∅

namespace Disk

/-- The file at a place. -/
def file? (d : Disk) (place : Place) : Option Content := Entries.get? d.files place

/-- The disk with a file at a place. -/
def put (d : Disk) (place : Place) (c : Content) : Disk :=
  { d with files := Entries.put d.files place c }

/-- The disk without the file at a place. -/
def erase (d : Disk) (place : Place) : Disk := { d with files := Entries.erase d.files place }

/-- Whether a place is a directory: the outermost one, or one that was made. -/
def isDirectory (d : Disk) (place : Place) : Bool :=
  place.isEmpty || d.directories.contains place

/-! ### Paths -/

/-- The greatest length of a name, in bytes. -/
def nameLimit : Nat := 255

/-- The greatest length of a path, in bytes. -/
def pathLimit : Nat := 4095

/-- The place that names lead to from another one. -/
def walk (d : Disk) (place : Place) : List String → Except Failure Place
  | [] => .ok place
  | name :: names =>
    if d.isDirectory place then
      if nameLimit < name.utf8ByteSize then .error .storage
      else walk d (place.step name) names
    else if (d.file? place).isSome then .error .notDirectory
    else .error .missingFile

/-- The place that the names in a path lead to. -/
def locateNames (d : Disk) (names : List String) : Except Failure Place :=
  let path := "/".intercalate names
  if path.contains '\x00' then .error .badValue
  else if pathLimit < path.utf8ByteSize then .error .storage
  else d.walk [] names

/-- The place that a path leads to. -/
def locate (d : Disk) (path : String) : Except Failure Place := d.locateNames (Place.namesOf path)

/-- Whether the names in a path lead to a file or a directory. -/
def holdsNames (d : Disk) (names : List String) : Bool :=
  match d.locateNames names with
  | .ok place => d.isDirectory place || (d.file? place).isSome
  | .error _ => false

/-- Whether a path leads to a file or a directory. -/
def holds (d : Disk) (path : String) : Bool := d.holdsNames (Place.namesOf path)

/-! ### Files -/

/-- A change of a disk; what it has done stays done when it fails. -/
abbrev Task := EStateM Failure Disk Unit

/-- A change that is made as a whole or not at all. -/
def task (f : Disk → Except Failure Disk) : Task := fun d =>
  match f d with
  | .ok d => .ok () d
  | .error e => .error e d

/-- What the file at a place holds. -/
def readAt (d : Disk) (place : Place) : Except Failure Content :=
  match d.file? place with
  | some c => .ok c
  | none => .error (if d.isDirectory place then .isDirectory else .missingFile)

/-- What the file at a path holds. -/
def read (d : Disk) (path : String) : Except Failure Content := do d.readAt (← d.locate path)

/-- Writes a file. -/
def write (path : String) (c : Content) : Task := task fun d => do
  let place ← d.locate path
  if d.isDirectory place then throw .isDirectory else return d.put place c

/-- The place of a file that is to be replaced.  Its name has to be a name of its own, and no
directory may be meant by it. -/
def locateTarget (d : Disk) (path : String) : Except Failure Place := do
  let names := Place.namesOf path
  let given := (names.reverse.dropWhile (· = "")).reverse
  let name := given.getLast?.getD ""
  let above ← d.locateNames given.dropLast
  if name = "." || name = ".." then throw .storage
  let place ← d.walk above [name]
  if given.length < names.length then throw .notDirectory
  if d.isDirectory place then throw .isDirectory
  return place

/-- Moves a file onto another one. -/
def replace (source target : String) : Task := task fun d => do
  let place ← d.locate source
  let onto ← d.locateTarget target
  return (d.erase place).put onto (← d.readAt place)

/-! ### Directories -/

/-- Makes the directory that names lead to, unless it is there already.  A file in its place is left
to those who go on from there, if it is not the last one to be made. -/
def makeDirectory (d : Disk) (isLast : Bool) (names : List String) : Except Failure Disk := do
  let place ← d.locateNames names
  if d.isDirectory place then return d
  else if (d.file? place).isSome then
    if isLast then throw .alreadyExists else return d
  else return { d with directories := d.directories.insert place }

/-- How many directories may be made in one another at once. -/
def depthLimit : Nat := 900

/-- Makes the directories that names lead to, from the outermost one on. -/
def makeDirectories (names : List String) : Task := do
  let d ← get
  let missing := (Place.way names).reverse.takeWhile (!d.holdsNames ·)
  if depthLimit < missing.length then throw .tooDeep
  (Place.way names).forM fun way => task (·.makeDirectory (way.length = names.length) way)

/-- Makes the directories on the way to a path, as it is read. -/
def makeParents (path : String) : Task := makeDirectories (Place.ofPath path).dropLast

/-- Makes the directories on the way to a path, as it is walked. -/
def makeWay (path : String) : Task :=
  makeDirectories ((Place.namesOf path).dropLast.filter (· ≠ ""))

/-! ### Databases -/

/-- The greatest length of the path of a database, in bytes. -/
def databasePathLimit : Nat := 504

/-- The greatest length of the name of a database that can be written, in bytes. -/
def databaseNameLimit : Nat := 247

/-- The place of the database that a path leads to.  The path is read, but what is on the way must
not keep from it: a place may be missing, but none may lie in a file. -/
def locateDatabase (d : Disk) (path : String) : Except Failure Place := do
  if path.contains '\x00' then throw .badValue
  let place ← (Place.namesOf path).foldlM (fun place name =>
    let place := Place.step place name
    match d.walk [] place with
    | .ok _ | .error .missingFile => .ok place
    | .error _ => .error .cannotOpen) []
  if databasePathLimit < ("/".intercalate place).utf8ByteSize then throw .cannotOpen
  return place

end Disk

end Blockwork
