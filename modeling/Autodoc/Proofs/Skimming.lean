import Autodoc.Proofs.Written

namespace Autodoc.Json

variable {Reads : List Char → α → List Char → Prop} {skim : List Char → Except Fault (List Char)} {fuel : Nat}
  {first : Bool} {s t r : List Char} {xs : List α} {ms : List (String × α)}

theorem skimItems_nil (hs : skipBlanks s = ']' :: r) : skimItems skim (fuel + 1) first s = .ok r := by
  simp only [skimItems, hs]

theorem skimItems_cons (hskim : ∀ u, skim (skipBlanks u) = skim u) {c : Char} (ht : Begins first s (c :: t))
    (hc : c ≠ ']') : skimItems skim (fuel + 1) first s =
      match skim (c :: t) with
      | .error e => .error e
      | .ok u => skimItems skim fuel false u := by
  rw [skimItems]
  cases ht with
  | first hs =>
    split
    next hnil => cases hnil.symm.trans hs
    next hend =>
      cases hend.symm.trans hs
      exact absurd rfl hc
    next hnext =>
      cases hnext.symm.trans hs
      rfl
  | @next _ u _ hs ht =>
    have hblanks := hskim u
    rw [ht] at hblanks
    rw [hblanks]
    split
    next hnil => cases hnil.symm.trans hs
    next hend => cases hend.symm.trans hs
    next hnext =>
      cases hnext.symm.trans hs
      rfl

theorem skimItems_of_items (hskim : ∀ u, skim (skipBlanks u) = skim u)
    (hread : ∀ t x u, Reads t x u → skim t = .ok u) (h : Items Reads first s xs r) (hfuel : xs.length < fuel) :
    skimItems skim fuel first s = .ok r := by
  induction h generalizing fuel with
  | nil hs =>
    obtain ⟨fuel, rfl⟩ := Nat.exists_eq_add_one_of_ne_zero (Nat.ne_zero_of_lt hfuel)
    exact skimItems_nil hs
  | cons ht hc hx _ ih =>
    obtain ⟨fuel, rfl⟩ := Nat.exists_eq_add_one_of_ne_zero (Nat.ne_zero_of_lt hfuel)
    rw [skimItems_cons hskim ht hc, hread _ _ _ hx]
    exact ih (Nat.lt_of_succ_lt_succ hfuel)

theorem skimKey_eq {k : String} {u w : List Char} (hs : skipBlanks s = '"' :: t) (hk : scanString [] t = .ok (k, u))
    (hw : scanColon u = .ok w) : skimKey s = .ok w := by
  simp only [skimKey, hs, skimString_of_scanString hk, hw]

theorem skimMembers_nil (hs : skipBlanks s = '}' :: r) : skimMembers skim (fuel + 1) first s = .ok r := by
  simp only [skimMembers, hs]

theorem skimKey_skipBlanks (s : List Char) : skimKey (skipBlanks s) = skimKey s := by
  rw [skimKey, skimKey, skipBlanks_skipBlanks]

theorem skimMembers_cons {w : List Char} (ht : Begins first s ('"' :: t)) (hk : skimKey ('"' :: t) = .ok w) :
    skimMembers skim (fuel + 1) first s = (skim w).bind (skimMembers skim fuel false) := by
  rw [skimMembers]
  cases ht with
  | first hs =>
    split
    next hnil => cases hnil.symm.trans hs
    next hend => cases hend.symm.trans hs
    next hnext =>
      cases hnext.symm.trans hs
      simp only [if_true, hk]
      cases skim w <;> rfl
  | @next _ u _ hs ht =>
    have hkey : skimKey u = .ok w := by rw [← skimKey_skipBlanks, ht, hk]
    split
    next hnil => cases hnil.symm.trans hs
    next hend => cases hend.symm.trans hs
    next hnext =>
      cases hnext.symm.trans hs
      simp only [Bool.false_eq_true, if_false, if_true, hkey]
      cases skim w <;> rfl

theorem skimMembers_of_members (hread : ∀ t x u, Reads t x u → skim t = .ok u) (h : Members Reads first s ms r)
    (hfuel : ms.length < fuel) : skimMembers skim fuel first s = .ok r := by
  induction h generalizing fuel with
  | nil hs =>
    obtain ⟨fuel, rfl⟩ := Nat.exists_eq_add_one_of_ne_zero (Nat.ne_zero_of_lt hfuel)
    exact skimMembers_nil hs
  | cons ht hk hw hx _ ih =>
    obtain ⟨fuel, rfl⟩ := Nat.exists_eq_add_one_of_ne_zero (Nat.ne_zero_of_lt hfuel)
    rw [skimMembers_cons ht (skimKey_eq rfl hk hw), hread _ _ _ hx]
    exact ih (Nat.lt_of_succ_lt_succ hfuel)

theorem skimNested_skipBlanks (s : List Char) : skimNested (fuel + 1) (skipBlanks s) = skimNested (fuel + 1) s := by
  rw [skimNested, skimNested, skipBlanks_skipBlanks]

theorem skimNested_number {c : Char} (hs : skipBlanks s = c :: t) (hc : isDigit c = true)
    (hn : skimNumber (c :: t) = .ok r) : skimNested (fuel + 1) s = .ok r := by
  rw [skimNested]
  split
  case h_1 heq => cases heq.symm.trans hs
  case h_9 heq =>
    cases heq.symm.trans hs
    rw [if_pos hc, hn]
  all_goals
    rename_i heq
    cases heq.symm.trans hs
    cases hc

theorem skimNested_of_scanWritten {depth : Nat} {v : Value} (h : scanWritten depth s = .ok (v, r))
    (hfuel : s.length < fuel) : skimNested fuel s = .ok r := by
  induction depth generalizing fuel s v r with
  | zero => cases h
  | succ depth ih =>
    obtain ⟨fuel, rfl⟩ := Nat.exists_eq_add_one_of_ne_zero (Nat.ne_zero_of_lt hfuel)
    have hle := length_skipBlanks_le s
    obtain ⟨c, t, hs, hspells⟩ := spells_of_scanWritten h
    rw [hs, List.length_cons] at hle
    cases hspells with
    | null hr | yes hr | no hr => simp only [skimNested, hs, hr]
    | negative hn => simp only [skimNested, hs, skimNumber_of_scanNumber hn]
    | number hc hn => exact skimNested_number hs hc (skimNumber_of_scanNumber hn)
    | text hx => simp only [skimNested, hs, skimString_of_scanString hx]
    | list hvs =>
      have hlength := hvs.length fun _ _ _ => length_of_scanWritten
      have hwithin := hvs.within (fun _ _ _ => length_of_scanWritten) (Nat.le_refl _)
      simp only [skimNested, hs]
      -- blanks before an item are skipped only if there is fuel for it
      obtain ⟨fuel, rfl⟩ := Nat.exists_eq_add_one_of_ne_zero (show fuel ≠ 0 by omega)
      refine skimItems_of_items skimNested_skipBlanks ?_ hwithin (by omega)
      rintro t v u ⟨hread, ht⟩
      exact ih hread (by omega)
    | object hms =>
      have hlength := hms.length fun _ _ _ => length_of_scanWritten
      have hwithin := hms.within (fun _ _ _ => length_of_scanWritten) (Nat.le_refl _)
      simp only [skimNested, hs]
      refine skimMembers_of_members ?_ hwithin (by omega)
      rintro t v u ⟨hread, ht⟩
      exact ih hread (by omega)

/-- A value that can be read can be skimmed. -/
theorem skimValue_of_scanWritten {depth : Nat} {v : Value} (h : scanWritten depth s = .ok (v, r)) :
    skimValue s = .ok r :=
  skimNested_of_scanWritten h (Nat.lt_succ_self _)

end Autodoc.Json
