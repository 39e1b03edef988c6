import Blockwork.Check

/-!
# Errors

Everything that can go wrong, by cause.  An error has a label, under which it is reported, and most
have a message (`Error.label`, `Error.message?`).  The causes that say no more than that an
operation failed are `Failure`s and have no message.
-/

namespace Blockwork

/-- An operation that failed, with nothing further to tell. -/
inductive Failure where
  | wrongType
  | wrongShape
  | badValue
  | missingKey
  | outOfRange
  | overflow
  | outOfMemory
  | malformedJson
  | malformedBytes
  | tooDeep
  | storage
  | missingFile
  | isDirectory
  | notDirectory
  | alreadyExists
  | notDatabase
  | cannotOpen
  | unsupportedKey
  | crash
  deriving DecidableEq, Repr

/-- The label of a failure. -/
def Failure.label : Failure → String
  | .wrongType => "TypeError"
  | .wrongShape => "AttributeError"
  | .badValue => "ValueError"
  | .missingKey => "KeyError"
  | .outOfRange => "IndexError"
  | .overflow => "OverflowError"
  | .outOfMemory => "MemoryError"
  | .malformedJson => "JSONDecodeError"
  | .malformedBytes => "UnicodeDecodeError"
  | .tooDeep => "RecursionError"
  | .storage => "OSError"
  | .missingFile => "FileNotFoundError"
  | .isDirectory => "IsADirectoryError"
  | .notDirectory => "NotADirectoryError"
  | .alreadyExists => "FileExistsError"
  | .notDatabase => "DatabaseError"
  | .cannotOpen => "OperationalError"
  | .unsupportedKey => "ProgrammingError"
  | .crash => "RuntimeError"

/-- A failure that comes from a file or a directory. -/
def Failure.isStorage : Failure → Bool
  | .storage | .missingFile | .isDirectory | .notDirectory | .alreadyExists => true
  | _ => false

/-- A failure that comes from a database. -/
def Failure.isDatabase : Failure → Bool
  | .notDatabase | .cannotOpen | .unsupportedKey => true
  | _ => false

/-- A failure that means a value could not be read. -/
def Failure.isBadValue : Failure → Bool
  | .badValue | .malformedJson | .malformedBytes => true
  | _ => false

/-- What a declaration, a change or the state of a workspace violates. -/
inductive Violation where
  -- fields
  | expectsNumber (field : Value) (got : Value)
  | expectsFinite (field : Value) (got : Value)
  | expectsColour (field : Value) (got : Value)
  -- declarations
  | unsupportedArgument (type : Value)
  | untyped
  | unreadableColour (type got : Value)
  | duplicateArguments (type : Value)
  | slotMismatch (type : Value) (slots : List Nat) (arguments : Nat)
  | alreadyDefined (type : Value)
  -- changes
  | noSuchBlock (id : Key)
  | duplicateId (id : Key)
  | noSuchField (type field : Value)
  | noSuchInput (type socket : Value)
  | noOutput (type socket : Value)
  | outputMismatch (child : Value) (output : Check) (parent socket : Value) (check : Check)
  | bindsCycle (child parent : Key)
  | noNext (type : Value)
  | noPrevious (type : Value)
  | linksCycle (child parent : Key)
  -- states
  | unknownTypeOf (id type : Value)
  | missingChild (id : Value) (socket : Key) (child : Value)
  | unknownInput (id : Value) (socket : Key)
  | misfit (child type : Value) (socket : Key)
  | missingNext (id next : Value)
  | cyclic
  deriving DecidableEq

/-- The text of a violation. -/
def Violation.message : Violation → String
  | .expectsNumber f v => "Field " ++ f.display ++ " expects a number, got " ++ v.quoted
  | .expectsFinite f v => "Field " ++ f.display ++ " expects a finite number, got " ++ v.quoted
  | .expectsColour f v => "Field " ++ f.display ++ " expects a hex colour, got " ++ v.quoted
  | .unsupportedArgument v => "Unsupported argument type: " ++ v.quoted
  | .untyped => "Block definition needs a 'type'"
  | .unreadableColour t v => "Block " ++ t.display ++ " has an unreadable colour: " ++ v.quoted
  | .duplicateArguments t => "Block " ++ t.display ++ " declares duplicate argument names"
  | .slotMismatch t slots n =>
    "Block " ++ t.display ++ " message slots " ++
      (Value.list (slots.map fun n : Nat => Value.int n)).quoted ++
      " do not match its " ++ Decimal.integer n ++ " arguments"
  | .alreadyDefined t => "Block type '" ++ t.display ++ "' is already defined"
  | .noSuchBlock id => "No block with id " ++ id.display
  | .duplicateId id => "Duplicate block id " ++ id.display
  | .noSuchField t f => "Block " ++ t.display ++ " has no field " ++ f.display
  | .noSuchInput t s => "Block " ++ t.display ++ " has no value input " ++ s.display
  | .noOutput t s => "Block " ++ t.display ++ " has no output to plug into " ++ s.display
  | .outputMismatch c o p s k =>
    "Output of " ++ c.display ++ " (" ++ Check.display o ++ ") does not fit " ++ p.display ++ "." ++
      s.display ++ " (" ++ Check.display k ++ ")"
  | .bindsCycle c p =>
    "Connecting " ++ c.display ++ " into " ++ p.display ++ " would create a cycle"
  | .noNext t => "Block " ++ t.display ++ " has no next connection"
  | .noPrevious t => "Block " ++ t.display ++ " has no previous connection"
  | .linksCycle c p => "Linking " ++ c.display ++ " after " ++ p.display ++ " would create a cycle"
  | .unknownTypeOf id t => "Block " ++ id.display ++ " has unknown type " ++ t.display
  | .missingChild id s c =>
    "Block " ++ id.display ++ " input " ++ s.display ++ " references missing block " ++ c.display
  | .unknownInput id s => "Block " ++ id.display ++ " binds unknown input " ++ s.display
  | .misfit c t s => "Block " ++ c.display ++ " does not satisfy " ++ t.display ++ "." ++ s.display
  | .missingNext id n => "Block " ++ id.display ++ " links to missing block " ++ n.display
  | .cyclic => "Graph contains a cycle"

/-- A setting that cannot be used. -/
inductive Misconfiguration where
  | unknownPolicy (policy : Value) (expected : Bool)
  | deltaOutOfRange (got : Value)
  | deltaNotInteger (got : String)
  | unknownBackend (backend : Value)
  | emptyKey
  | notBoolean (got : String)
  | noLoop
  deriving DecidableEq

/-- The text of a misconfiguration. -/
def Misconfiguration.message : Misconfiguration → String
  | .unknownPolicy p true =>
    "Unknown colour policy '" ++ p.display ++ "', expected one of ('rgb', 'hsv')"
  | .unknownPolicy p false => "Unknown colour policy '" ++ p.display ++ "'"
  | .deltaOutOfRange v => "Lighten delta must be between 0 and 255, got " ++ v.display
  | .deltaNotInteger s => "Lighten delta must be an integer, got '" ++ s ++ "'"
  | .unknownBackend b =>
    "Unknown storage backend '" ++ b.display ++ "', expected one of ('memory', 'sqlite', 'json')"
  | .emptyKey => "Storage key must not be empty"
  | .notBoolean s => "Cannot read '" ++ s ++ "' as a boolean"
  | .noLoop => "Orchestrator needs a running event loop or an explicit loop"

/-- The setting that a misconfiguration is about. -/
def Misconfiguration.setting : Misconfiguration → String
  | .unknownPolicy .. => "colour_policy"
  | .deltaOutOfRange _ | .deltaNotInteger _ => "lighten_delta"
  | .unknownBackend _ => "storage_backend"
  | .emptyKey => "storage_key"
  | .notBoolean _ => "supersede_stale_cycles"
  | .noLoop => "loop"

mutual

/-- What makes a stored workspace unreadable. -/
inductive Damage where
  | database (path : String) (cause : Failure)
  | file (path : String) (cause : Failure)
  | fileShape (path : String)
  | slotShape (key : Key) (path : String)
  | shape
  | sectionShape
  | version (got : Value)
  | topEntry (got : Value)
  | entry (got : Value)
  | parts (id : Value)
  | input (socket id : Key)
  | nextList (id : Value)
  | linkInList (id : Value)
  | nextLink (id : Value)
  | rebuild (cause : Error)

/-- An error. -/
inductive Error where
  | violation (cause : Violation)
  | unknownType (type : Value)
  | damage (cause : Damage)
  | misconfiguration (cause : Misconfiguration)
  | superseded (generation current : Value)
  | noRule (type id : Value)
  | notHex (got : Value)
  | unboundName (name : String)
  | failure (cause : Failure)

end

namespace Error

/-- The label under which an error is reported. -/
def label : Error → String
  | .violation _ => "ValidationError"
  | .unknownType _ => "UnknownBlockTypeError"
  | .damage _ => "SnapshotError"
  | .misconfiguration _ => "ConfigurationError"
  | .superseded .. => "CycleSuperseded"
  | .noRule .. => "GenerationError"
  | .notHex _ => "ValueError"
  | .unboundName _ => "NameError"
  | .failure f => f.label

end Error

/-- A failure inside a message: its label. -/
def Failure.display (f : Failure) : String := "<" ++ f.label ++ ">"

mutual

/-- The text of a damage. -/
def Damage.message : Damage → String
  | .database p f => "Slot database " ++ p ++ " is unreadable: " ++ f.display
  | .file p f => "Slot file " ++ p ++ " is unreadable: " ++ f.display
  | .fileShape p => "Slot file " ++ p ++ " does not hold an object"
  | .slotShape k p => "Slot " ++ k.display ++ " in " ++ p ++ " is not a string"
  | .shape => "Snapshot is not an object"
  | .sectionShape => "Snapshot 'blocks' section is malformed"
  | .version v => "Unsupported language version " ++ v.quoted
  | .topEntry v => "Top block entry is not an object: " ++ v.quoted
  | .entry v => "Block entry is not an object: " ++ v.quoted
  | .parts id => "Block " ++ id.display ++ " has malformed fields or inputs"
  | .input s id => "Input " ++ s.display ++ " of block " ++ id.display ++ " is malformed"
  | .nextList id => "Next list of block " ++ id.display ++ " is malformed"
  | .linkInList id => "Block " ++ id.display ++ " in a flat chain has its own next link"
  | .nextLink id => "Next link after block " ++ id.display ++ " is malformed"
  | .rebuild e => "Snapshot cannot be rebuilt: " ++ e.display

/-- An error in running text: its message, or its label when it has none. -/
def Error.display : Error → String
  | .violation v => v.message
  | .unknownType t => "Unknown block type: " ++ t.display
  | .damage d => d.message
  | .misconfiguration m => m.message
  | .superseded g c => "Cycle " ++ g.display ++ " superseded by cycle " ++ c.display
  | .noRule t _ => "No code generator for block type '" ++ t.display ++ "'"
  | .notHex v => "Not a hex colour: " ++ v.quoted
  | .unboundName n => "name '" ++ n ++ "' is not defined"
  | .failure f => f.display

end

/-- The message of an error, if it has one. -/
def Error.message? : Error → Option String
  | .failure _ => none
  | e => some e.display

end Blockwork
