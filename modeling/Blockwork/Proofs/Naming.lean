import Mathlib.Data.List.Nodup
import Mathlib.Data.List.Range
import Blockwork.Compile.Names
import Blockwork.Proofs.Numerals
import Blockwork.Proofs.Wiring

/-!
# New names

The name that is chosen for a definition is not in use (`Names.exists_distinct`): of one more
candidate than there are names in use one is new, as no two candidates are the same.
-/

namespace Blockwork.Names

theorem candidate_injective {name : String} {m n : Nat}
    (h : candidate name m = candidate name n) : m = n := by
  have digits_ne (k : Nat) : Nat.toDigits 10 k ≠ [] := Nat.toDigits_ne_nil
  have longer (k : Nat) : name ≠ name ++ String.ofList (Nat.toDigits 10 k) := fun he => by
    have hlen := congrArg String.length he
    rw [String.length_append, String.length_ofList] at hlen
    exact digits_ne k (List.length_eq_zero_iff.mp (by omega))
  unfold candidate at h
  split at h
  · split at h
    · omega
    · exact absurd h (longer _)
  · split at h
    · exact absurd h.symm (longer _)
    · have hd := String.ofList_injective ((String.append_right_inj _).mp h)
      exact Nat.succ.inj (Decimal.digits_injective hd)

theorem contains_text {used : List Key} {s : String} :
    used.contains (.text s) = true ↔ .text s ∈ used := by
  rw [List.contains_eq_any_beq, List.any_eq_true]
  refine ⟨?_, fun h => ⟨_, h, BEq.rfl⟩⟩
  rintro ⟨k, hk, he⟩
  exact Key.text_beq_iff.mp he ▸ hk

/-- Among one more text than there are keys there is one that is none of the keys. -/
theorem exists_unused (used : List Key) {f : Nat → String} (hf : ∀ m n, f m = f n → m = n) :
    ∃ n ∈ List.range (used.length + 1), used.contains (.text (f n)) = false := by
  by_contra hall
  have hmem : ∀ n ∈ List.range (used.length + 1), Key.text (f n) ∈ used := by
    intro n hn
    by_contra hnot
    refine hall ⟨n, hn, ?_⟩
    rw [Bool.eq_false_iff]
    exact fun hc => hnot (contains_text.mp hc)
  have hnd : ((List.range (used.length + 1)).map fun n => Key.text (f n)).Nodup :=
    List.nodup_range.map fun m n he => hf m n (Key.text.inj he)
  have hsub : ((List.range (used.length + 1)).map fun n => Key.text (f n)) ⊆ used := by
    intro k hk
    obtain ⟨n, hn, rfl⟩ := List.mem_map.mp hk
    exact hmem n hn
  have hlen := hnd.length_le_of_subset hsub
  rw [List.length_map, List.length_range] at hlen
  omega

/-- Whether a text is the first candidate for a name that is not in use. -/
def Next (used : List Key) (name s : String) : Prop :=
  ∃ n, s = candidate name n ∧ .text s ∉ used ∧ ∀ m < n, .text (candidate name m) ∈ used

/-- The search for a new name finds one. -/
theorem exists_next (used : List Key) (name : String) :
    ∃ s, distinct used (.text name) = .text s ∧ Next used name s := by
  have hcandidate (n : Nat) : (if n = 0 then Key.text name
      else .text (candidate (Key.text name).display n)) = .text (candidate name n) := by
    unfold candidate
    split
    · rfl
    · simp [Key.display]
  obtain ⟨n, hn, hnew⟩ := exists_unused used (f := candidate name) fun _ _ => candidate_injective
  have hsome : ((List.range (used.length + 1)).find? fun n =>
      !used.contains (Key.text (candidate name n))).isSome :=
    List.find?_isSome.mpr ⟨n, hn, by rw [hnew]; rfl⟩
  obtain ⟨m, hm⟩ := Option.isSome_iff_exists.mp hsome
  obtain ⟨hfound, -, hearlier⟩ := List.find?_range_eq_some.mp hm
  refine ⟨candidate name m, ?_, m, rfl, ?_, fun k hk => ?_⟩
  · unfold distinct
    rw [firstNew_eq]
    simp only [hcandidate, hm, Option.getD_some]
  · rw [← contains_text]
    simpa using hfound
  · rw [← contains_text]
    simpa using hearlier k hk

/-- A name that is a text is made new by a number, or is new itself. -/
theorem exists_distinct (used : List Key) (name : String) :
    ∃ s, distinct used (.text name) = .text s ∧ used.contains (.text s) = false := by
  obtain ⟨s, hs, _, _, hnew, _⟩ := exists_next used name
  exact ⟨s, hs, Bool.eq_false_iff.mpr fun hc => hnew (contains_text.mp hc)⟩

end Blockwork.Names
