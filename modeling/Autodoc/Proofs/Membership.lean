import Autodoc.Proofs.Nicknames

namespace Autodoc

namespace NicknameSet

variable {names : Array String} {name m n : String} {low mid high i j : Nat}

/-- The places from `low` on and before `high` are the only ones where a name can still stand: before them all names are
less, behind them all are greater. -/
structure Narrowed (names : Array String) (name : String) (low high : Nat) : Prop where
  high_le : high ≤ names.size
  less : ∀ i n, i < low → names[i]? = some n → n < name
  greater : ∀ i n, high ≤ i → names[i]? = some n → name < n

theorem lt_of_places (h : Increasing names.toList) (hm : names[i]? = some m) (hn : names[j]? = some n) (hij : i < j) :
    m < n := by
  obtain ⟨hi, rfl⟩ := Array.getElem?_eq_some_iff.1 hm
  obtain ⟨hj, rfl⟩ := Array.getElem?_eq_some_iff.1 hn
  exact List.pairwise_iff_getElem.1 (increasing_iff_pairwise.1 h) i j hi hj hij

namespace Narrowed

theorem all (names : Array String) (name : String) : Narrowed names name 0 names.size where
  high_le := Nat.le_refl _
  less _ _ hi _ := absurd hi (Nat.not_lt_zero _)
  greater i n hi hn := by
    rw [Array.getElem?_eq_none hi] at hn
    cases hn

theorem before (hs : Increasing names.toList) (h : Narrowed names name low high) (hmid : mid < high)
    (hn : names[mid]? = some n) (hlt : name < n) : Narrowed names name low mid where
  high_le := Nat.le_trans (Nat.le_of_lt hmid) h.high_le
  less := h.less
  greater i m hi hm := by
    rcases Nat.eq_or_lt_of_le hi with rfl | hi
    · cases hn.symm.trans hm
      exact hlt
    · exact String.lt_trans hlt (lt_of_places hs hn hm hi)

theorem behind (hs : Increasing names.toList) (h : Narrowed names name low high) (hn : names[mid]? = some n)
    (hlt : n < name) : Narrowed names name (mid + 1) high where
  high_le := h.high_le
  less i m hi hm := by
    rcases Nat.eq_or_lt_of_le (Nat.le_of_lt_succ hi) with rfl | hi
    · cases hn.symm.trans hm
      exact hlt
    · exact String.lt_trans (lt_of_places hs hm hn hi) hlt
  greater := h.greater

theorem notMem (h : Narrowed names name low high) (hle : high ≤ low) : name ∉ names.toList := by
  intro hmem
  obtain ⟨i, hi⟩ := List.mem_iff_getElem?.1 hmem
  rw [Array.getElem?_toList] at hi
  rcases Nat.lt_or_ge i low with hlow | hlow
  · exact String.lt_irrefl _ (h.less i name hlow hi)
  · exact String.lt_irrefl _ (h.greater i name (Nat.le_trans hle hlow) hi)

end Narrowed

/-- The search keeps to the places where the name can stand, so it finds the name exactly when it is there. -/
theorem search_iff (hs : Increasing names.toList) (h : Narrowed names name low high) :
    search names name low high = true ↔ name ∈ names.toList := by
  fun_induction search names name low high with
  | case1 low high hlt mid hnone =>
    have hmid := Array.getElem?_eq_none_iff.1 hnone
    have hle := h.high_le
    omega
  | case2 low high hlt mid n hn hless ih => exact ih (h.before hs (by omega) hn hless)
  | case3 low high hlt mid hn => exact iff_of_true rfl (List.mem_of_getElem? (Array.getElem?_toList ▸ hn))
  | case4 low high hlt mid n hn hless hne ih =>
    have hgreater : n < name := by
      by_contra hnot
      exact hne (String.le_antisymm hnot hless)
    exact ih (h.behind hs hn hgreater)
  | case5 low high hlt => exact iff_of_false Bool.false_ne_true (h.notMem (Nat.le_of_not_lt hlt))

theorem contains_iff_of_increasing {s : NicknameSet} (hs : Increasing s.toList) :
    s.contains name = true ↔ name ∈ s.toList :=
  search_iff hs (.all s.names name)

end NicknameSet

/-- Synonyms out of order, one of them twice and one that begins behind all plain letters. -/
def Config.synonymous : Config :=
  { Config.default with operationRoot := "VipsArithmetic", synonyms := ["über", "zoom", "crop", "zoom"] }

namespace Registry

/-- Among the documented nicknames a text is found exactly when it is one of them. -/
theorem contains_nicknames_iff {r : Registry} {c : Config} {names : NicknameSet}
    (h : (r.nicknames c).outcome = .ok names) (probe : String) :
    names.contains probe = true ↔ probe ∈ names.toList :=
  NicknameSet.contains_iff_of_increasing (increasing_of_nicknames h)

theorem contains_nicknames_sample :
    (sample.nicknames .synonymous).outcome = .ok ⟨#["crop", "invert", "zoom", "über"]⟩ ∧
      NicknameSet.contains ⟨#["crop", "invert", "zoom", "über"]⟩ "über" = true ∧
      NicknameSet.contains ⟨#["crop", "invert", "zoom", "über"]⟩ "zoo" = false := by
  have hnames : (sample.nicknames .synonymous).outcome = .ok ⟨#["crop", "invert", "zoom", "über"]⟩ := by
    have hlisted : ["VipsInvert", "VipsOld"].filterMap sample.liveNickname? = ["invert"] := by decide
    have hsorted : (sortedNames (sortedNames ["invert"] ++ Config.synonymous.synonyms)).filter
        (fun n => !Config.synonymous.denyList.contains n) = ["crop", "invert", "zoom", "über"] := by decide
    rw [outcome_nicknames_of_leaves (by decide) (by decide) (by decide) (by decide) hlisted, hsorted]
  have hcontains := contains_nicknames_iff hnames
  exact ⟨hnames, (hcontains "über").2 (by decide), Bool.eq_false_iff.2 (mt (hcontains "zoo").1 (by decide))⟩

end Registry

end Autodoc
