import Autodoc.Proofs.DocBlock
import Autodoc.Text.Casing

namespace Autodoc

namespace Text

theorem le_of_mem_upperCode {c n : Nat} (hc : 0x80 ≤ c) (h : n ∈ upperCode c) : 0x41 ≤ n := by
  have hexpansions : ∀ e ∈ upperExpansions, ∀ n ∈ e.2, 0x41 ≤ n := by decide +kernel
  have hruns : ∀ r ∈ upperRuns, 0x41 ≤ r.target := by decide +kernel
  unfold upperCode at h
  split at h
  next cs hcs =>
    obtain ⟨_, _, hsplit, _⟩ := List.lookup_eq_some_iff.1 hcs
    exact hexpansions (c, cs) (by simp [hsplit]) n h
  next =>
    split at h
    next r hr =>
      rw [List.mem_singleton.1 h]
      exact (hruns r (List.mem_of_find?_eq_some hr)).trans (Nat.le_add_right _ _)
    next =>
      rw [List.mem_singleton.1 h]
      omega

theorem toNat_ofNat (n : Nat) : (Char.ofNat n).toNat = n ∨ (Char.ofNat n).toNat = 0 := by
  by_cases h : n.isValidChar
  · rw [Char.ofNat, dif_pos h]
    exact .inl rfl
  · rw [Char.ofNat, dif_neg h]
    exact .inr rfl

theorem toUpper_eq_iff {c d : Char} (hd : d.toNat < 0x41) : c.toUpper = d ↔ c = d := by
  unfold Char.toUpper
  split
  next h =>
    have hlow : 0x61 ≤ c.toNat := UInt32.le_iff_toNat_le.1 h.1
    have hhigh : c.toNat ≤ 0x7A := UInt32.le_iff_toNat_le.1 h.2
    have hmoved : (c.val + ('A'.val - 'a'.val)).toNat = c.toNat - 0x20 := by
      rw [UInt32.toNat_add]
      show (c.toNat + 0xFFFFFFE0) % 2 ^ 32 = _
      omega
    constructor
    · rintro rfl
      change (c.val + ('A'.val - 'a'.val)).toNat < 0x41 at hd
      omega
    · rintro rfl
      omega
  next => exact Iff.rfl

theorem mem_upperChar_iff {c d : Char} (hpos : 0 < d.toNat) (hd : d.toNat < 0x41) : d ∈ upperChar c ↔ c = d := by
  unfold upperChar
  split
  next => rw [List.mem_singleton, eq_comm, toUpper_eq_iff hd]
  next hc =>
    constructor
    · intro hmem
      obtain ⟨n, hn, rfl⟩ := List.mem_map.1 hmem
      have hle := le_of_mem_upperCode (by omega) hn
      rcases toNat_ofNat n with h | h <;> omega
    · rintro rfl
      omega

end Text

/-- A property of texts that comes of stars and newlines, whatever their case and their dashes. -/
structure Flaw (B : String → Prop) : Prop where
  plain : ∀ s, '*' ∉ s.toList → '\n' ∉ s.toList → ¬ B s
  spaced : ∀ s t, B (s ++ " " ++ t) ↔ B s ∨ B t
  capitalize : ∀ s, B (Text.capitalize s) ↔ B s
  underscored : ∀ s, B (Text.underscored s) ↔ B s

theorem closes_capitalize (s : String) : Closes (Text.capitalize s) ↔ Closes s := by
  rw [Closes, Closes, Text.capitalize]
  split
  next h => rw [h, String.toList_empty]
  next c cs h =>
    rw [h, String.toList_ofList, star_slash_infix_append, star_slash_infix_cons]
    by_cases hc : c = '*'
    · obtain rfl := hc
      have hstar : Text.upperChar '*' = ['*'] := by decide
      rw [hstar]
      simp [star_slash_infix_cons, or_comm]
    · have hmem : '*' ∉ Text.upperChar c := fun h => hc ((Text.mem_upperChar_iff (by decide) (by decide)).1 h)
      have hinfix : ¬ ['*', '/'] <:+: Text.upperChar c := fun h => hmem (h.subset (by simp))
      have hlast : (Text.upperChar c).getLast? ≠ some '*' := fun h => hmem (List.mem_of_getLast? h)
      simp [hc, hinfix, hlast]

theorem breaks_capitalize (s : String) : Breaks (Text.capitalize s) ↔ Breaks s := by
  rw [Breaks, Breaks, Text.capitalize]
  split
  next h => rw [h, String.toList_empty]
  next c cs h =>
    rw [h, String.toList_ofList, List.mem_append, List.mem_cons,
      Text.mem_upperChar_iff (by decide) (by decide), eq_comm]

theorem underscore_eq_iff {c d : Char} (hdash : d ≠ '-') (hd : d ≠ '_') :
    (if c = '-' then '_' else c) = d ↔ c = d := by
  split
  next hc =>
    subst hc
    exact ⟨fun h => absurd h.symm hd, fun h => absurd h.symm hdash⟩
  next => exact Iff.rfl

theorem closes_underscored (s : String) : Closes (Text.underscored s) ↔ Closes s := by
  rw [Closes, Closes, Text.underscored, String.toList_ofList]
  induction s.toList with
  | nil => rfl
  | cons c cs ih =>
    have hhead : (cs.map fun c => if c = '-' then '_' else c).head? = some '/' ↔ cs.head? = some '/' := by
      cases cs with
      | nil => rfl
      | cons d ds => simp [underscore_eq_iff]
    rw [List.map_cons, star_slash_infix_cons, star_slash_infix_cons, ih, hhead,
      underscore_eq_iff (by decide) (by decide)]

theorem breaks_underscored (s : String) : Breaks (Text.underscored s) ↔ Breaks s := by
  rw [Breaks, Breaks, Text.underscored, String.toList_ofList, List.mem_map]
  simp [underscore_eq_iff]

theorem closes_flaw : Flaw Closes where
  plain _ hstar _ := not_closes_of_notMem (.inl rfl) hstar
  spaced s t := by
    have hspace : Fixed " " := by decide
    simp [closes_append, hspace.not_closes]
  capitalize := closes_capitalize
  underscored := closes_underscored

theorem breaks_flaw : Flaw Breaks where
  plain _ _ hline := hline
  spaced s t := by
    have hspace : Fixed " " := by decide
    simp [breaks_append, hspace.not_breaks]
  capitalize := breaks_capitalize
  underscored := breaks_underscored

end Autodoc
