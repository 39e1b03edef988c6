import Blockwork.Store.Disk

/-!
# Hosts

What a program shares with the machine it runs on: the disk, the slots that live as long as the
process, and the log.
-/

namespace Blockwork

/-- How grave a log entry is. -/
inductive Level where
  | info
  | warning
  | error
  deriving DecidableEq, Repr

/-- The name of a level. -/
def Level.name : Level → String
  | .info => "INFO"
  | .warning => "WARNING"
  | .error => "ERROR"

/-- The part of the program that a log entry comes from. -/
inductive Area where
  | persistence
  | highlighter
  | orchestrator
  deriving DecidableEq, Repr

/-- The name of an area. -/
def Area.name : Area → String
  | .persistence => "persistence"
  | .highlighter => "highlighter"
  | .orchestrator => "orchestrator"

/-- One entry of the log. -/
structure LogEntry where
  level : Level
  area : Area
  text : String
  deriving DecidableEq

/-- What a program shares with its machine. -/
structure Host where
  disk : Disk := {}
  /-- Sets of slots in memory, by number. -/
  memories : List (List (Key × String)) := []
  log : Array LogEntry := #[]

namespace Host

/-- The host with one more log entry. -/
def note (h : Host) (level : Level) (area : Area) (text : String) : Host :=
  { h with log := h.log.push ⟨level, area, text⟩ }

/-- A set of slots in memory. -/
def memory (h : Host) (number : Nat) : List (Key × String) := h.memories[number]?.getD []

/-- The host with a set of slots in memory replaced. -/
def setMemory (h : Host) (number : Nat) (slots : List (Key × String)) : Host :=
  { h with memories := h.memories.set number slots }

/-- The host with one more set of slots in memory, and its number. -/
def addMemory (h : Host) (slots : List (Key × String)) : Host × Nat :=
  ({ h with memories := h.memories ++ [slots] }, h.memories.length)

end Host

end Blockwork
