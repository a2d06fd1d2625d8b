import Mathlib.Data.List.DropRight
import Mathlib.Data.List.TakeDrop
import Autodoc.Json.Skim

namespace Autodoc.Json

variable {s r : List Char}

theorem skipBlanks_skipBlanks (s : List Char) : skipBlanks (skipBlanks s) = skipBlanks s :=
  List.dropWhile_idempotent isBlank s

theorem length_of_scanWord {w : List Char} (h : scanWord w s = .ok r) : r.length ≤ s.length := by
  induction w generalizing s with
  | nil =>
    cases h
    exact le_rfl
  | cons c w ih =>
    cases s with
    | nil => cases h
    | cons d s =>
      rw [scanWord] at h
      split at h
      · exact (ih h).trans (Nat.le_succ _)
      · cases h

theorem length_of_scanColon (h : scanColon s = .ok r) : r.length < s.length := by
  have hle := length_skipBlanks_le s
  unfold scanColon at h
  split at h
  next => cases h
  next heq =>
    cases h
    rw [heq, List.length_cons] at hle
    omega
  next => cases h

theorem skimString_quote : skimString ('"' :: r) = .ok r := by
  rw [skimString]

theorem skimString_plain {c : Char} (hq : c ≠ '"') (hb : c ≠ '\\') (hc : ¬ c.toNat < 0x20) :
    skimString (c :: s) = skimString s := by
  rw [skimString]
  · exact if_neg hc
  all_goals simp_all

theorem skimString_unit {n : Nat} (h : scanUnit s = .ok (n, r)) : skimString ('\\' :: 'u' :: s) = skimString r := by
  rw [skimString, if_pos rfl]
  split
  next he => cases he.symm.trans h
  next hu =>
    cases hu.symm.trans h
    rfl

theorem skimString_letter {c : Char} (hu : c ≠ 'u') (hc : c ∈ ['"', '\\', '/', 'b', 'f', 'n', 'r', 't']) :
    skimString ('\\' :: c :: s) = skimString s := by
  rw [skimString]
  simp only [if_neg hu, if_pos hc]

theorem skimString_of_scanLowHalf {high : Nat} {c : Char} (h : scanLowHalf high s = .ok (c, r)) :
    skimString s = skimString r := by
  unfold scanLowHalf at h
  split at h
  case h_3 =>
    split at h
    · cases h
    · rename_i hu
      split at h
      · obtain ⟨_, rfl⟩ := Prod.mk.inj (Except.ok.inj h)
        exact skimString_unit hu
      · cases h
  all_goals cases h

theorem skimString_of_scanEscape {c : Char} (h : scanEscape s = .ok (c, r)) :
    skimString ('\\' :: s) = skimString r := by
  unfold scanEscape at h
  split at h
  case h_10 =>
    split at h
    · cases h
    · rename_i hu
      rw [skimString_unit hu]
      split at h
      · cases h
      · split at h
        · exact skimString_of_scanLowHalf h
        · cases h
          rfl
  case h_1 => cases h
  case h_11 => cases h
  all_goals
    cases h
    exact skimString_letter (by decide) (by decide)

theorem skimString_of_scanString {acc : List Char} {t : String} (h : scanString acc s = .ok (t, r)) :
    skimString s = .ok r := by
  induction acc, s using scanString.induct with
  | case1 acc =>
    rw [scanString] at h
    cases h
  | case2 acc s =>
    rw [scanString] at h
    cases h
    exact skimString_quote
  | case3 acc s e he =>
    rw [scanString] at h
    split at h
    · cases h
    · rename_i hc
      cases he.symm.trans hc
  | case4 acc s c s' hc ih =>
    rw [scanString] at h
    split at h
    · cases h
    · rename_i hc'
      cases hc.symm.trans hc'
      rw [skimString_of_scanEscape hc]
      exact ih h
  | case5 acc c s hq hb hc =>
    rw [scanString, if_pos hc] at h
    · cases h
    all_goals assumption
  | case6 acc c s hq hb hc ih =>
    rw [scanString, if_neg hc] at h
    · rw [skimString_plain hq hb hc]
      exact ih h
    all_goals assumption

theorem length_of_skimString (h : skimString s = .ok r) : r.length < s.length := by
  induction s using skimString.induct with
  | case1 =>
    rw [skimString] at h
    cases h
  | case2 s =>
    rw [skimString_quote] at h
    cases h
    exact Nat.lt_succ_self _
  | case3 =>
    rw [skimString] at h
    cases h
  | case4 s e he =>
    rw [skimString, if_pos rfl] at h
    split at h
    · cases h
    · rename_i hu
      cases he.symm.trans hu
  | case5 s n s' hu ih =>
    have hlength := length_of_scanUnit hu
    rw [skimString_unit hu] at h
    have hrest := ih h
    simp only [List.length_cons]
    omega
  | case6 c s hu hc ih =>
    rw [skimString_letter hu hc] at h
    have hrest := ih h
    simp only [List.length_cons]
    omega
  | case7 c s hu hc =>
    rw [skimString] at h
    simp only [if_neg hu, if_neg hc] at h
    cases h
  | case8 c s hq hnil hcons hc =>
    rw [skimString, if_pos hc] at h
    · cases h
    all_goals assumption
  | case9 c s hq hnil hcons hc ih =>
    rw [skimString, if_neg hc] at h
    · have hrest := ih h
      simp only [List.length_cons]
      omega
    all_goals assumption

theorem snd_digitRun (s : List Char) : (digitRun s).2 = s.dropWhile isDigit := by
  rw [digitRun, List.span_eq_takeWhile_dropWhile]

theorem length_digitRun_le (s : List Char) : (digitRun s).2.length ≤ s.length := by
  rw [snd_digitRun]
  exact List.length_dropWhile_le _ s

theorem snd_digitRun_cons {c : Char} (hc : isDigit c = true) : (digitRun (c :: s)).2 = (digitRun s).2 := by
  rw [snd_digitRun, snd_digitRun, List.dropWhile_cons_of_pos hc]

theorem snd_digitRun_of_head (h : s.head?.any isDigit = false) : (digitRun s).2 = s := by
  rw [snd_digitRun]
  cases s with
  | nil => rfl
  | cons c s => exact List.dropWhile_cons_of_neg (by simpa using h)

theorem rest_of_scanScaled {negative : Bool} {sig : Nat} {e : Int} {n : Number}
    (h : scanScaled negative sig e s = .ok (n, r)) : s = r := by
  unfold scanScaled at h
  split at h
  · cases h
    rfl
  · cases h

theorem skimExponent_eq {c : Char} {t : List Char} (hs : s = '+' :: c :: t ∨ s = '-' :: c :: t ∨ s = c :: t)
    (hc : isDigit c = true) : skimExponent s = .ok (digitRun t).2 := by
  rcases hs with rfl | rfl | rfl
  · exact if_pos hc
  · exact if_pos hc
  · unfold skimExponent
    split
    next heq =>
      cases heq
      cases hc
    next heq =>
      cases heq
      cases hc
    next => exact if_pos hc

theorem skimExponent_of_scanExponent {negative : Bool} {sig : Nat} {e : Int} {n : Number}
    (h : scanExponent negative sig e s = .ok (n, r)) : skimExponent s = .ok r := by
  unfold scanExponent at h
  split at h
  rename_i down t ht
  split at h
  · cases h
  rename_i c u
  split at h
  next hc =>
    have hs : s = '+' :: c :: u ∨ s = '-' :: c :: u ∨ s = c :: u := by
      split at ht <;> cases ht <;> simp
    rw [skimExponent_eq hs hc]
    dsimp only at h
    split at h
    · rw [rest_of_scanScaled h]
    · split at h
      · cases h
      · cases h
        rfl
  next => cases h

theorem skimFraction_of_scanFraction {negative : Bool} {sig : Nat} {e : Int} {n : Number}
    (h : scanFraction negative sig e s = .ok (n, r)) : skimFraction s = .ok r := by
  unfold scanFraction at h
  unfold skimFraction
  dsimp only at h ⊢
  generalize (digitRun s).2 = t at h ⊢
  split at h
  · cases h
  rename_i hds
  rw [if_neg hds]
  split at h
  · exact skimExponent_of_scanExponent h
  · exact skimExponent_of_scanExponent h
  · rename_i he he'
    obtain rfl := rest_of_scanScaled h
    simp_all

theorem skimNumber_of_scanNumber {negative : Bool} {n : Number} (h : scanNumber negative s = .ok (n, r)) :
    skimNumber s = .ok r := by
  unfold scanNumber at h
  unfold skimNumber
  split at h
  · cases h
  rename_i c t
  dsimp only at h ⊢
  split at h
  · cases h
  rename_i hc
  split at h
  · cases h
  rename_i hzero
  -- a zero stands alone
  have hrest : (if c = '0' then t else (digitRun t).2) = (digitRun (c :: t)).2 := by
    rw [snd_digitRun_cons (by simpa using hc)]
    split
    next hc => exact (snd_digitRun_of_head (by simpa using mt (And.intro hc) hzero)).symm
    next => rfl
  rw [if_neg hc, if_neg hzero, hrest]
  generalize (digitRun (c :: t)).2 = u at h ⊢
  split at h
  · exact skimFraction_of_scanFraction h
  · exact skimExponent_of_scanExponent h
  · exact skimExponent_of_scanExponent h
  · rename_i hdot he he'
    have hu : u = r := by
      split at h
      · cases h
        rfl
      · exact rest_of_scanScaled h
    subst hu
    simp_all

theorem length_of_skimExponent (h : skimExponent s = .ok r) : r.length ≤ s.length := by
  unfold skimExponent at h
  dsimp only at h
  split at h
  · cases h
  rename_i c t ht
  split at h
  · cases h
    have hrun := length_digitRun_le t
    split at ht <;> cases ht <;> simp only [List.length_cons] <;> omega
  · cases h

theorem length_of_skimFraction (h : skimFraction s = .ok r) : r.length ≤ s.length := by
  have hrun := length_digitRun_le s
  unfold skimFraction at h
  dsimp only at h
  generalize (digitRun s).2 = t at h hrun
  split at h
  · cases h
  · split at h
    · have hexponent := length_of_skimExponent h
      simp only [List.length_cons] at hrun
      omega
    · have hexponent := length_of_skimExponent h
      simp only [List.length_cons] at hrun
      omega
    · cases h
      exact hrun

theorem length_of_skimNumber (h : skimNumber s = .ok r) : r.length < s.length := by
  unfold skimNumber at h
  split at h
  · cases h
  rename_i c t
  split at h
  · cases h
  split at h
  · cases h
  have hrun : (if c = '0' then t else (digitRun t).2).length ≤ t.length := by
    split
    · exact Nat.le_refl _
    · exact length_digitRun_le t
  generalize (if c = '0' then t else (digitRun t).2) = u at h hrun
  rw [List.length_cons]
  split at h
  · have hfraction := length_of_skimFraction h
    simp only [List.length_cons] at hrun
    omega
  · have hexponent := length_of_skimExponent h
    simp only [List.length_cons] at hrun
    omega
  · have hexponent := length_of_skimExponent h
    simp only [List.length_cons] at hrun
    omega
  · cases h
    omega

end Autodoc.Json
