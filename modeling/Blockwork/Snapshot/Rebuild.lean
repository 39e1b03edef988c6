import Blockwork.Scene
import Blockwork.Snapshot.Outline

/-!
# Rebuilding

Blocks are built from the outline of a stored document, entry by entry in the order in which they
are written, by the same edits that people make.  The first thing that does not work ends the
building; what was built until then stays.
-/

namespace Blockwork.Snapshot

variable {σ : Type}

/-- The error with which building ends when an edit fails: what is wrong with the content of the
document is a damage of it, all else stays what it is. -/
def asDamage (e : Error) : Error :=
  match e with
  | .violation _ | .unknownType _ | .notHex _ => .damage (.rebuild e)
  | .failure f =>
    if f.isBadValue || f = .wrongType || f = .missingKey then .damage (.rebuild e) else e
  | e => e

/-- Creates the block that an entry asks for, without what is plugged into it. -/
def place (a : Audience σ) (h : Head) : Act σ Key := do
  match h.type with
  | none => throw (.failure .missingKey)
  | some type =>
    let id ← Act.create a type h.id h.position h.fields
    if h.disabled then Act.edit (Edit.update id fun b => { b with enabled := .bool false })
    return id

mutual

/-- Builds an entry; the answer is the id of its block. -/
def grow (a : Audience σ) : Entry → Act σ Key
  | .fault e => throw e
  | .block h inputs => do
    let id ← place a h
    growInputs a id inputs
    return id

/-- Builds what is plugged into a block. -/
def growInputs (a : Audience σ) (id : Key) : List (Key × Option Entry) → Act σ Unit
  | [] => pure ()
  | (socket, entry) :: rest => do
    growInput a id socket entry
    growInputs a id rest

/-- Builds what is plugged into one socket, and plugs it in. -/
def growInput (a : Audience σ) (id : Key) (socket : Key) : Option Entry → Act σ Unit
  | none => throw (.damage (.input socket id))
  | some e => do
    let child ← grow a e
    Act.perform a (Edit.connectValue id (.ofKey socket) child)

end

/-- Builds entries one after the other, each linked to the one before it. -/
def growAfter (a : Audience σ) (previous : Key) : List Entry → Act σ Unit
  | [] => pure ()
  | e :: es => do
    let id ← grow a e
    Act.perform a (Edit.connectNext previous id)
    growAfter a id es

/-- Builds a chain; the answer is the id of its first block. -/
def growStrand (a : Audience σ) (s : Strand) : Act σ Key := do
  let top ← grow a s.top
  growAfter a top s.following
  return top

/-- Builds chains one after the other. -/
def growAll (a : Audience σ) : List Strand → Act σ (List Key)
  | [] => return []
  | s :: ss => do
    let top ← growStrand a s
    return top :: (← growAll a ss)

/-- Builds all that a document describes; the answer is the ids of the blocks at the top. -/
def rebuild (a : Audience σ) (document : Value) : Act σ (List Key) :=
  match outline document with
  | .error e => throw e
  | .ok strands => Act.mapError asDamage (growAll a strands)

end Blockwork.Snapshot
