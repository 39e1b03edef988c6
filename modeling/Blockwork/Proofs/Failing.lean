import Blockwork.Proofs.Creating
import Blockwork.Proofs.Faults

/-!
# How edits fail

Edits fail by errors of few kinds (`Edit.Errs`), those by which calculations fail among them: what an
edit computes before it changes anything, the values it writes, the types it looks up and the links
it follows.  The position of a new block is not among that, since it may have too few parts.
-/

namespace Blockwork

/-- Whether the errors by which edits fail are of a kind. -/
structure Edit.Errs (bad : Error → Prop) : Prop extends Error.Calculates bad where
  missingKey : bad (.failure .missingKey)
  violation : ∀ v, bad (.violation v)
  unknownType : ∀ type, bad (.unknownType type)

theorem Edit.Errs.any : Errs fun _ => True := by
  constructor
  · constructor <;> trivial
  all_goals intros; trivial

section

variable {bad : Error → Prop} (hb : Edit.Errs bad)

include hb

/-! ### Values of fields -/

namespace Socket

theorem failsBy_readNumber (field v : Value) : FailsBy bad (readNumber field v) := by
  have read := v.failsBy_toFloat hb.toCalculates
  unfold readNumber
  split
  · split
    · exact FailsBy.ok _
    · exact FailsBy.error (hb.violation _)
  · exact FailsBy.error (hb.violation _)
  · exact FailsBy.error (hb.violation _)
  · rename_i e _ _ he
    exact FailsBy.error (read e he)

theorem failsBy_snap (precision : Value) (x : Binary64) : FailsBy bad (snap precision x) := by
  have calc' := hb.toCalculates
  unfold snap
  split
  · refine (precision.failsBy_toNumber calc').bind fun step => ?_
    refine (Number.failsBy_toFloat calc' step).bind fun y => ?_
    exact (Number.failsBy_wholeBy calc' _ _).bind fun n => Number.failsBy_lift calc' _ _ _ _
  · exact FailsBy.ok _

theorem failsBy_raiseTo (bound : Value) (n : Number) : FailsBy bad (raiseTo bound n) := by
  unfold raiseTo
  split
  · exact FailsBy.ok _
  · exact (bound.failsBy_toNumber hb.toCalculates).bind fun m => FailsBy.ok _

theorem failsBy_lowerTo (bound : Value) (n : Number) : FailsBy bad (lowerTo bound n) := by
  unfold lowerTo
  split
  · exact FailsBy.ok _
  · exact (bound.failsBy_toNumber hb.toCalculates).bind fun m => FailsBy.ok _

theorem failsBy_coerce (s : Socket) (v : Value) : FailsBy bad (s.coerce v) := by
  unfold coerce
  split
  · refine (failsBy_readNumber hb _ v).bind fun x => (failsBy_snap hb _ x).bind fun n => ?_
    refine (failsBy_raiseTo hb _ n).bind fun n => (failsBy_lowerTo hb _ n).bind fun n => ?_
    exact (Number.failsBy_wholeBy hb.toCalculates _ n).bind fun i => FailsBy.ok _
  · split
    · exact FailsBy.ok _
    · exact FailsBy.error (hb.violation _)
  · exact FailsBy.ok _
  · exact FailsBy.ok _

end Socket

theorem Edit.failsBy_filled (type : Value) (d : Declaration) (given : List (Key × Value)) :
    FailsBy bad (filled type d given) := by
  unfold filled
  generalize d.defaults = fields
  induction given generalizing fields with
  | nil => exact FailsBy.ok _
  | cons e given ih =>
      obtain ⟨name, v⟩ := e
      rw [List.foldlM_cons]
      refine FailsBy.bind ?_ fun fields => ih fields
      dsimp only
      cases d.field? (.ofKey name) with
      | none => exact FailsBy.error (hb.violation _)
      | some s => exact (Socket.failsBy_coerce hb s v).map _

/-! ### Types and links -/

theorem Vocabulary.failsBy_get (v : Vocabulary) (type : Key) : FailsBy bad (v.get type) := by
  unfold get
  split
  · exact FailsBy.ok _
  · exact FailsBy.error (hb.unknownType _)

theorem Declaration.failsBy_fits (d : Declaration) (s : Socket) : FailsBy bad (d.fits s) := by
  unfold fits
  split
  · exact FailsBy.ok _
  · exact FailsBy.error hb.wrongType

theorem Edit.failsBy_dropInput (inputs : List (Key × Value)) (socket : Value) :
    FailsBy bad (dropInput inputs socket) := by
  unfold dropInput
  split
  · exact FailsBy.ok _
  · exact (socket.failsBy_toKey hb.toCalculates).bind fun k => FailsBy.ok _

namespace Workspace

theorem failsBy_declarationOf (w : Workspace) (b : Block) : FailsBy bad (w.declarationOf b) :=
  (b.type.failsBy_toKey hb.toCalculates).bind fun k => Vocabulary.failsBy_get hb _ k

theorem failsBy_reachesUp (w : Workspace) (id : Value) (n : Nat) (k : Key) :
    FailsBy bad (w.reachesUp id n k) := by
  induction n generalizing k with
  | zero => exact FailsBy.ok _
  | succ n ih =>
      unfold reachesUp
      split
      · exact FailsBy.ok _
      · split
        · exact FailsBy.ok _
        · split
          · exact (Value.failsBy_toKey hb.toCalculates _).bind fun k => ih k
          · exact FailsBy.ok _

theorem failsBy_hangsFrom (w : Workspace) (above k : Key) : FailsBy bad (w.hangsFrom above k) :=
  failsBy_reachesUp hb w _ _ k

theorem failsBy_chain (w : Workspace) (k : Key) : FailsBy bad (w.chain k) := by
  unfold chain
  generalize w.size = n
  induction n generalizing k with
  | zero => exact FailsBy.ok _
  | succ n ih =>
      unfold chainFrom
      split
      · exact FailsBy.ok _
      · split
        · refine (Value.failsBy_toKey hb.toCalculates _).bind fun k => ?_
          exact (ih k).bind fun c => FailsBy.ok _
        · exact FailsBy.ok _

end Workspace

end

end Blockwork
