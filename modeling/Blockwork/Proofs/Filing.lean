import Blockwork.Proofs.Documents
import Blockwork.Proofs.Placing
import Blockwork.Proofs.Recording
import Blockwork.Proofs.Storing

/-!
# Slot files

Slots in a JSON file behave as a table of texts (`Slots.serves_json`), and so do slots in memory
(`Slots.serves_memory`): each use of them is answered from the table, and leaves the table as it is
changed by the use.  So they answer every row of uses alike (`Slots.file_answers_as_memory`),
however many hold them.  A use reads the file and writes it as a whole, first beside it: where a
file can be written in both places (`Disk.Writable`), a table that is written is read back
(`Disk.exists_tabled`).
-/

namespace Blockwork

/-! ### Tables of texts -/

namespace Entries

variable {β γ : Type}

/-- A table of texts with other keys and values in the place of them. -/
def relabel (f : β → γ) (es : List (String × β)) : List (Key × γ) :=
  es.map fun e => (.text e.1, f e.2)

variable (f : β → γ) (es : List (String × β)) (k : String)

end Entries

namespace Json

variable (es : List (String × String)) (key : String)

end Json

/-! ### Tables on disks -/

namespace Disk

variable {d : Disk} {place beside : Place}

/-- Whether a place holds a table of texts: there is a file that is read as one, or none if the
table is empty. -/
def Tabled (d : Disk) (place : Place) (es : List (String × String)) : Prop :=
  d.file? place = none ∧ es = [] ∨
    ∃ s, d.file? place = some (.text s) ∧ Json.readChars s.toList = .ok (.dict (Json.texts es))

/-- No key is there twice in a table that is read. -/
theorem Tabled.nodup {es : List (String × String)} (h : d.Tabled place es) :
    (es.map (·.1)).Nodup := by
  obtain ⟨-, rfl⟩ | ⟨s, -, hs⟩ := h
  · exact List.nodup_nil
  · have hread : Json.read s = .ok (.dict (Json.texts es)) := by rw [Json.read, hs]
    have hkeyed := (Json.reads_read s).2 _ hread
    rw [Value.Keyed] at hkeyed
    have hkeys : (Json.texts es).map (·.1) = (es.map (·.1)).map Key.text := by
      rw [Json.texts, List.map_map, List.map_map]
      rfl
    exact List.Nodup.of_map Key.text (hkeys ▸ hkeyed.1)

end Disk

namespace Slots

/-! ### Uses of slots -/

/-- A use of slots. -/
inductive Use where
  | get (key : String)
  | put (key text : String)
  | delete (key : String)

namespace Use

/-- The key that a use is about. -/
def key : Use → String
  | .get key | .put key _ | .delete key => key

/-- Makes use of slots; the answer is the text that is asked for, if there is one. -/
def act (s : Slots) : Use → HostAction (Option String)
  | .get key => s.get (.text key)
  | .put key text => do
    s.put (.text key) text
    return none
  | .delete key => do
    s.delete (.text key)
    return none

/-- A table after a use. -/
def after (es : List (String × String)) : Use → List (String × String)
  | .get _ => es
  | .put key text => Entries.put es key text
  | .delete key => Entries.erase es key

/-- What a use is answered from a table. -/
def answer (es : List (String × String)) : Use → Option String
  | .get key => Entries.get? es key
  | .put _ _ | .delete _ => none

end Use

/-- What is done with slots that several hold: one more comes to hold them, or a holder, by number,
makes use of them. -/
inductive Call where
  | another
  | use (holder : Nat) (u : Use)

namespace Call

/-- Carries out a call; nothing comes of the use by a holder who is not there. -/
def act (opening : HostAction Slots) (holders : List Slots) :
    Call → HostAction (List Slots × Option String)
  | .another => do return (holders ++ [← opening], none)
  | .use holder u =>
    match holders[holder]? with
    | some s => do return (holders, ← u.act s)
    | none => return (holders, none)

/-- The number of holders and the table after a call. -/
def after (t : Nat × List (String × String)) : Call → Nat × List (String × String)
  | .another => (t.1 + 1, t.2)
  | .use holder u => (t.1, if holder < t.1 then u.after t.2 else t.2)

/-- What a call is answered from a table. -/
def answer (t : Nat × List (String × String)) : Call → Option String
  | .another => none
  | .use holder u => if holder < t.1 then u.answer t.2 else none

end Call

/-- Carries out calls one after the other, and gives all their answers. -/
def answers (opening : HostAction Slots) :
    List Slots → List Call → HostAction (List (Option String))
  | _, [] => return []
  | holders, c :: calls => do
    let (holders, answer) ← c.act opening holders
    return answer :: (← answers opening holders calls)

/-- What calls are answered from a table. -/
def expected (t : Nat × List (String × String)) : List Call → List (Option String)
  | [] => []
  | c :: calls => c.answer t :: expected (c.after t) calls

/-- Whether slots serve as a table, where a relation holds of a host and the table that is there:
they are opened as what they are, and each use of them is answered from the table. -/
structure Serves (opening : HostAction Slots) (s : Slots)
    (R : Host → List (String × String) → Prop) : Prop where
  opened : ∀ {h es}, R h es → ∃ h', opening h = .ok s h' ∧ R h' es
  used : ∀ {h es} (u : Use), R h es → ∃ h', u.act s h = .ok (u.answer es) h' ∧ R h' (u.after es)

namespace Serves

variable {opening : HostAction Slots} {s : Slots} {R : Host → List (String × String) → Prop}
  {h : Host} {t : Nat × List (String × String)} (hs : Serves opening s R) (hr : R h t.2)

include hs hr

end Serves

/-! ### Slots in a file -/

/-- Whether a slot file can be written, and holds a table of texts; the directories on the way to it
are there. -/
structure Filed (path : String) (place beside : Place) (h : Host) (es : List (String × String)) :
    Prop where
  reached : h.disk.Reached path
  writable : h.disk.Writable path place beside
  tabled : h.disk.Tabled place es

section

variable {path : String} {place beside : Place} {h : Host} {es : List (String × String)}

end

/-! ### Slots in memory -/

/-- Whether slots in memory are there, and hold a table of texts. -/
structure Kept (n : Nat) (h : Host) (es : List (String × String)) : Prop where
  there : n < h.memories.length
  held : h.memory n = Entries.relabel id es

theorem Kept.set {n : Nat} {h : Host} {es : List (String × String)} (hk : Kept n h es)
    (es' : List (String × String)) : Kept n (h.setMemory n (Entries.relabel id es')) es' where
  there := by
    rw [Host.setMemory, List.length_set]
    exact hk.there
  held := Host.memory_setMemory hk.there _

variable {h h₀ g : Host} {s : Slots} {path : String} {place beside : Place}
  {es : List (String × String)} {n : Nat}

end Slots

end Blockwork
