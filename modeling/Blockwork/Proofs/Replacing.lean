import Mathlib.Data.List.Infix

/-!
# Replacing in texts

What a replacement makes of a text: from the left, each place where the pattern stands is exchanged,
and the search goes on behind it (`toList_replace`).  So the text is cut into parts without the
pattern, and these are put together again (`exists_parts_replace`).
-/

namespace Blockwork

/-- The characters with each place where the pattern stands exchanged, from the left; the first so
many are passed over. -/
def replaceFrom (pat new : List Char) : Nat → List Char → List Char
  | _, [] => []
  | n + 1, _ :: cs => replaceFrom pat new n cs
  | 0, c :: cs =>
      if pat <+: c :: cs then new ++ replaceFrom pat new (pat.length - 1) cs
      else c :: replaceFrom pat new 0 cs

section

variable {pat : List Char} (new : List Char)

theorem replaceFrom_nil (n : Nat) : replaceFrom pat new n [] = [] := by
  cases n <;> rfl

theorem replaceFrom_length_append (cs ds : List Char) :
    replaceFrom pat new cs.length (cs ++ ds) = replaceFrom pat new 0 ds := by
  induction cs with
  | nil => rfl
  | cons c cs ih => exact ih

/-- Where the pattern stands, it is exchanged. -/
theorem replaceFrom_append (hpat : pat ≠ []) (cs : List Char) :
    replaceFrom pat new 0 (pat ++ cs) = new ++ replaceFrom pat new 0 cs := by
  obtain ⟨c, pat', rfl⟩ := List.exists_cons_of_ne_nil hpat
  have hhere : c :: pat' <+: c :: (pat' ++ cs) := List.prefix_append (c :: pat') cs
  rw [List.cons_append, replaceFrom, if_pos hhere, List.length_cons, Nat.add_sub_cancel,
    replaceFrom_length_append]

/-- Where the pattern does not stand, nothing is exchanged. -/
theorem replaceFrom_of_not_prefix (cs : List Char) {ds : List Char}
    (h : ∀ as bs, cs = as ++ bs → bs ≠ [] → ¬ pat <+: bs ++ ds) :
    replaceFrom pat new 0 (cs ++ ds) = cs ++ replaceFrom pat new 0 ds := by
  induction cs with
  | nil => rfl
  | cons c cs ih =>
      have hhere : ¬ pat <+: c :: (cs ++ ds) := h [] (c :: cs) rfl (List.cons_ne_nil _ _)
      rw [List.cons_append, replaceFrom, if_neg hhere, ih fun as bs he => ?_, List.cons_append]
      exact h (c :: as) bs (by rw [he]; rfl)

/-- The characters are parts without the pattern with the pattern between them, and in the end they
are the same parts with other characters between them. -/
theorem exists_parts (hpat : pat ≠ []) (cs : List Char) :
    ∃ parts, cs = pat.intercalate parts ∧ replaceFrom pat new 0 cs = new.intercalate parts ∧
      parts ≠ [] ∧ ∀ part ∈ parts, ¬ pat <:+: part := by
  -- behind an exchanged place the search goes on with fewer characters, so the induction is on
  -- their number
  induction h : cs.length using Nat.strong_induction_on generalizing cs with
  | _ n ih =>
  subst h
  rcases cs with _ | ⟨c, cs⟩
  · exact ⟨[[]], rfl, replaceFrom_nil new 0, List.cons_ne_nil _ _, by simpa using hpat⟩
  by_cases hhere : pat <+: c :: cs
  · obtain ⟨ds, hds⟩ := hhere
    have hlt : ds.length < (c :: cs).length := by
      have := List.length_pos_iff.mpr hpat
      rw [← hds, List.length_append]
      omega
    obtain ⟨parts, he, hr, hne, hfree⟩ := ih _ hlt ds rfl
    refine ⟨[] :: parts, ?_, ?_, List.cons_ne_nil _ _, ?_⟩
    · rw [List.intercalate_cons_of_ne_nil hne, ← he, List.nil_append, hds]
    · rw [List.intercalate_cons_of_ne_nil hne, ← hr, ← hds, replaceFrom_append new hpat,
        List.nil_append]
    · exact List.forall_mem_cons.mpr ⟨by simpa using hpat, hfree⟩
  · obtain ⟨parts, he, hr, hne, hfree⟩ := ih _ (Nat.lt_succ_self _) cs rfl
    obtain ⟨part, parts, rfl⟩ := List.exists_cons_of_ne_nil hne
    have hhead (sep : List Char) :
        sep.intercalate ((c :: part) :: parts) = c :: sep.intercalate (part :: parts) := by
      cases parts <;> simp
    refine ⟨(c :: part) :: parts, ?_, ?_, List.cons_ne_nil _ _, ?_⟩
    · rw [hhead, ← he]
    · rw [hhead, ← hr, replaceFrom, if_neg hhere]
    · refine List.forall_mem_cons.mpr ⟨fun hin => ?_, (List.forall_mem_cons.mp hfree).2⟩
      rcases List.infix_cons_iff.mp hin with hpre | hin
      · refine hhere (hpre.trans ?_)
        rw [he, ← hhead]
        cases parts with
        | nil => simp
        | cons p ps => 
          rw [List.intercalate_cons_of_ne_nil (List.cons_ne_nil _ _), List.append_assoc]
          exact List.prefix_append _ _
      · exact (List.forall_mem_cons.mp hfree).1 hin

/-- Parts without the pattern are found again, if its first character does not come a second
time. -/
theorem replaceFrom_intercalate {c : Char} (hc : c ∉ pat) {parts : List (List Char)}
    (hfree : ∀ part ∈ parts, ¬ c :: pat <:+: part) :
    replaceFrom (c :: pat) new 0 ((c :: pat).intercalate parts) = new.intercalate parts := by
  induction parts with
  | nil => rfl
  | cons part parts ih =>
      obtain ⟨hpart, hparts⟩ := List.forall_mem_cons.mp hfree
      rcases eq_or_ne parts [] with rfl | hne
      · have hlast : replaceFrom (c :: pat) new 0 (part ++ []) =
            part ++ replaceFrom (c :: pat) new 0 [] := by
          refine replaceFrom_of_not_prefix new part fun as bs he _ hpre => hpart ?_
          rw [he]
          rw [List.append_nil] at hpre
          exact hpre.isInfix.trans (List.suffix_append _ _).isInfix
        simpa [replaceFrom_nil] using hlast
      · rw [List.intercalate_cons_of_ne_nil hne, List.intercalate_cons_of_ne_nil hne,
          List.append_assoc, replaceFrom_of_not_prefix, replaceFrom_append new (List.cons_ne_nil _ _),
          ih hparts, List.append_assoc]
        rintro as bs rfl hbs hpre
        have hnot : ¬ c :: pat <+: bs := fun hin =>
          hpart (hin.isInfix.trans (List.suffix_append _ _).isInfix)
        rcases List.prefix_or_prefix_of_prefix hpre (List.prefix_append _ _) with hin | ⟨rest, hrest⟩
        · exact hnot hin
        -- the pattern would begin in the part and end in the next pattern, and so its first
        -- character would come a second time
        obtain ⟨b, bs, rfl⟩ := List.exists_cons_of_ne_nil hbs
        rw [← hrest, List.prefix_append_right_inj] at hpre
        rcases rest with _ | ⟨d, rest⟩
        · rw [List.append_nil] at hrest
          exact hnot (by rw [hrest])
        · obtain rfl := (List.cons_prefix_cons.mp hpre).1
          rw [List.cons_append, List.cons_eq_cons] at hrest
          rw [← hrest.1, ← hrest.2] at hc
          exact hc (List.mem_append_right bs List.mem_cons_self)

end

open String.Slice.Pattern Model

/-- What a replacement does with a step of the search. -/
def replaceStep {s : String.Slice} (new text : String) : SearchStep s → String
  | .matched .. => text ++ new.toSlice
  | .rejected start stop => text ++ s.slice! start stop

/-- A search that is valid finds the places that are exchanged. -/
theorem toList_foldl_replaceStep {pat : String} (hpat : pat ≠ "") (new : String)
    {s : String.Slice} {p : s.Pos} {steps : List (SearchStep s)}
    (h : IsValidSearchFrom pat p steps) (text : String) {t₁ t₂ : String} (hp : p.Splits t₁ t₂) :
    (steps.foldl (replaceStep new) text).toList =
      text.toList ++ replaceFrom pat.toList new.toList 0 t₂.toList := by
  have hne : pat.toList ≠ [] := fun he => hpat (String.toList_inj.mp he)
  induction h generalizing text t₁ t₂ with
  | endPos =>
      obtain rfl : t₂ = "" := (String.Slice.splits_endPos_iff.mp hp).2
      simp [replaceFrom_nil]
  | matched hmatch _ ih =>
      obtain ⟨u₁, u₂, hfrom, hto⟩ := ForwardStringSearcher.isLongestMatchAt_iff_splits.mp hmatch
      obtain rfl := hp.eq_right hfrom
      rw [List.foldl_cons, ih _ hto, String.toList_append, replaceFrom_append _ hne]
      simp [replaceStep]
  | @mismatched _ start stop hlt hnone _ ih =>
      obtain ⟨u, hu₁, rfl⟩ := (hp.le_iff_exists_eq_append stop.splits).mp (Std.le_of_lt hlt)
      have hto := stop.splits
      rw [hu₁] at hto
      generalize (s.sliceFrom stop).copy = v at hp hto
      obtain ⟨hle, hslice⟩ := String.Slice.copy_slice_eq_iff_splits.mpr ⟨t₁, v, hp, hto⟩
      have hskipped : (replaceStep new text (.rejected start stop)).toList =
          text.toList ++ u.toList := by
        rw [replaceStep, ← String.Slice.slice_eq_slice! (h := hle), ← hslice]
        simp
      rw [List.foldl_cons, ih _ hto, hskipped, String.toList_append, replaceFrom_of_not_prefix,
        List.append_assoc]
      intro as bs he hbs hpre
      obtain ⟨w, hw⟩ := hpre
      obtain rfl : u = String.ofList as ++ String.ofList bs := by
        rw [← String.toList_inj, he]
        simp
      rw [String.append_assoc] at hp
      rw [← String.append_assoc] at hto
      have hmid := hp.splits_rotateRight
      refine hnone hp.rotateRight ?_ ?_ ?_
      · exact (hp.le_iff_exists_eq_append hmid).mpr ⟨String.ofList as, rfl, rfl⟩
      · refine (hmid.lt_iff_exists_eq_append hto).mpr ⟨String.ofList bs, ?_, rfl, rfl⟩
        exact fun he => hbs (by simpa using he)
      · refine ForwardStringSearcher.matchesAt_iff_splits.mpr
          ⟨t₁ ++ String.ofList as, String.ofList w, ?_⟩
        have hrest : String.ofList bs ++ v = pat ++ String.ofList w := by
          rw [← String.toList_inj]
          simp [hw]
        rw [← hrest]
        exact hmid

/-- **A replacement** of a pattern that is not empty. -/
theorem toList_replace {pat : String} (hpat : pat ≠ "") (s new : String) :
    (s.replace pat new).toList = replaceFrom pat.toList new.toList 0 s.toList := by
  have hlawful := ForwardStringSearcher.lawfulToForwardSearcherModel hpat
  have hvalid := hlawful.isValidSearchFrom_toList s.toSlice
  have hfold : s.replace pat new =
      (ToForwardSearcher.toSearcher pat s.toSlice).toList.foldl (replaceStep new) "" := by
    rw [Std.Iter.foldl_toList]
    unfold String.replace String.Slice.replace
    congr
    funext text step
    cases step <;> rfl
  rw [hfold, toList_foldl_replaceStep hpat new hvalid "" (String.Slice.splits_startPos _)]
  simp

end Blockwork
