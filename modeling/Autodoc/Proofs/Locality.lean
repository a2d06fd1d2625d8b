import Autodoc.Proofs.Grammar

namespace Autodoc.Json

open Grammar

variable {s t u r : List Char}

theorem scanUnit_free {n : Nat} (h : scanUnit s = .ok (n, r)) : Free (fun s r => scanUnit s = .ok (n, r)) s r := by
  obtain ⟨a, b, c, d, rfl, _⟩ := exists_of_scanUnit h
  refine (free_word [a, b, c, d] r).imp ?_
  rintro _ r' _ rfl
  simp only [scanUnit, List.cons_append, List.nil_append] at h ⊢
  cases hdigits : hexDigits? [a, b, c, d] with
  | none =>
    rw [hdigits] at h
    cases h
  | some m =>
    rw [hdigits] at h
    cases h
    rfl

theorem scanLowHalf_free {high : Nat} {c : Char} (h : scanLowHalf high s = .ok (c, r)) :
    Free (fun s r => scanLowHalf high s = .ok (c, r)) s r := by
  unfold scanLowHalf at h
  split at h
  case h_3 =>
    split at h
    · cases h
    rename_i hu
    split at h
    next hlow =>
      obtain ⟨rfl, rfl⟩ := Prod.mk.inj (Except.ok.inj h)
      refine (scanUnit_free hu).word ['\\', 'u'] fun s r _ hs => ?_
      simp only [scanLowHalf, List.cons_append, List.nil_append, hs, if_pos hlow]
    next => cases h
  all_goals cases h

theorem scanEscape_free {c : Char} (h : scanEscape s = .ok (c, r)) :
    Free (fun s r => scanEscape s = .ok (c, r)) s r := by
  unfold scanEscape at h
  split at h
  case h_10 =>
    split at h
    · cases h
    rename_i n t hu
    split at h
    next => cases h
    next hlow =>
      have hunit := scanUnit_free hu
      split at h
      next hhigh =>
        refine (hunit.seq (scanLowHalf_free h)).word ['u'] ?_
        rintro s r _ ⟨t, hs, ht⟩
        simp only [scanEscape, List.cons_append, List.nil_append, hs, if_neg hlow, if_pos hhigh, ht]
      next hhigh =>
        cases h
        refine hunit.word ['u'] fun s r _ hs => ?_
        simp only [scanEscape, List.cons_append, List.nil_append, hs, if_neg hlow, if_neg hhigh]
  case h_1 => cases h
  case h_11 => cases h
  all_goals
    cases h
    exact (free_word [_] _).imp fun _ _ _ hs => hs ▸ rfl

theorem scanString_free {acc : List Char} {x : String} (h : scanString acc s = .ok (x, r)) :
    Free (fun s r => scanString acc s = .ok (x, r)) s r := by
  induction acc, s using scanString.induct with
  | case1 acc =>
    rw [scanString] at h
    cases h
  | case2 acc s =>
    rw [scanString] at h
    cases h
    refine (free_word ['"'] r).imp ?_
    rintro _ r _ rfl
    exact scanString.eq_2 acc r
  | case3 acc s e he =>
    rw [scanString] at h
    split at h
    · cases h
    · rename_i hc
      cases he.symm.trans hc
  | case4 acc s c t hc ih =>
    rw [scanString_escape hc] at h
    refine ((scanEscape_free hc).seq (ih h)).word ['\\'] ?_
    rintro s r _ ⟨t, hs, ht⟩
    exact (scanString_escape hs).trans ht
  | case5 acc c s hq hb hc =>
    rw [scanString, if_pos hc] at h
    · cases h
    all_goals assumption
  | case6 acc c s hq hb hc ih =>
    rw [scanString, if_neg hc] at h
    · refine (ih h).word [c] fun s r _ hs => ?_
      rw [List.singleton_append, scanString, if_neg hc]
      · exact hs
      all_goals assumption
    all_goals assumption

def NoDigit (r : List Char) : Prop := r.head?.any isDigit = false

theorem digitRun_front {ds : List Char} (h : digitRun s = (ds, r)) :
    NoDigit r ∧ Front NoDigit (fun s r => digitRun s = (ds, r)) s r := by
  rw [digitRun, List.span_eq_takeWhile_dropWhile, Prod.mk.injEq] at h
  obtain ⟨rfl, rfl⟩ := h
  have hdigits : ∀ d ∈ s.takeWhile isDigit, isDigit d = true := fun d hd => List.mem_takeWhile_imp hd
  refine ⟨?_, s.takeWhile isDigit, List.takeWhile_append_dropWhile.symm, fun r hr => digitRun_append hdigits hr⟩
  have hstop := List.head?_dropWhile_not isDigit s
  rw [NoDigit]
  cases hhead : (s.dropWhile isDigit).head? with
  | none => rfl
  | some c =>
    rw [hhead] at hstop
    exact hstop

section Numbers

variable {negative : Bool} {sig : Nat} {e : Int} {n : Number}

/-- Nothing is taken off the text, and it makes no difference. -/
theorem scanScaled_anywhere (h : scanScaled negative sig e s = .ok (n, r)) :
    s = r ∧ ∀ s', scanScaled negative sig e s' = .ok (n, s') := by
  refine ⟨rest_of_scanScaled h, fun s' => ?_⟩
  unfold scanScaled at h ⊢
  split at h
  next =>
    cases h
    rfl
  next => cases h

/-- What an exponent makes of a significand; `d` and `ds` are its digits. -/
def scanPower (negative down : Bool) (sig : Nat) (e : Int) (d : Char) (ds r : List Char) : Scan Number :=
  match exponentValue (digitValue d) ds with
  | .ok n => scanScaled negative sig (if down then e - n else e + n) r
  | .error left =>
    if sig ≠ 0 ∧ ¬ down then .error (.here .numberOutOfRange (left ++ r))
    else .ok (.float (if negative then -0.0 else 0.0), r)

theorem scanPower_anywhere {down : Bool} {d : Char} {ds : List Char}
    (h : scanPower negative down sig e d ds s = .ok (n, r)) :
    s = r ∧ ∀ s', scanPower negative down sig e d ds s' = .ok (n, s') := by
  unfold scanPower at h ⊢
  split at h
  next => exact scanScaled_anywhere h
  next =>
    split at h
    next => cases h
    next hsig =>
      cases h
      exact ⟨rfl, fun s' => if_neg hsig⟩

theorem scanExponent_eq {down : Bool} {d : Char} {ds : List Char} (hd : isDigit d = true) (ht : digitRun t = (ds, u))
    (hs : (s = '-' :: d :: t ∧ down = true) ∨ ((s = '+' :: d :: t ∨ s = d :: t) ∧ down = false)) :
    scanExponent negative sig e s = scanPower negative down sig e d ds u := by
  obtain rfl : (digitRun t).1 = ds := congrArg Prod.fst ht
  obtain rfl : (digitRun t).2 = u := congrArg Prod.snd ht
  rcases hs with ⟨rfl, rfl⟩ | ⟨rfl | rfl, rfl⟩
  · exact if_pos hd
  · exact if_pos hd
  · unfold scanExponent
    split
    rename_i down t' hsign
    split at hsign
    next heq =>
      cases heq
      cases hd
    next heq =>
      cases heq
      cases hd
    next =>
      cases hsign
      exact if_pos hd

theorem exists_of_scanExponent (h : scanExponent negative sig e s = .ok (n, r)) :
    ∃ down d t, ((s = '-' :: d :: t ∧ down = true) ∨ ((s = '+' :: d :: t ∨ s = d :: t) ∧ down = false)) ∧
      isDigit d = true := by
  unfold scanExponent at h
  split at h
  rename_i down t ht
  split at h
  · cases h
  rename_i d u
  split at h
  next hd =>
    refine ⟨down, d, u, ?_, hd⟩
    split at ht
    · cases ht
      exact .inr ⟨.inl rfl, rfl⟩
    · cases ht
      exact .inl ⟨rfl, rfl⟩
    · cases ht
      exact .inr ⟨.inr rfl, rfl⟩
  next => cases h

theorem scanExponent_front (h : scanExponent negative sig e s = .ok (n, r)) :
    Front NoDigit (fun s r => scanExponent negative sig e s = .ok (n, r)) s r := by
  obtain ⟨down, d, t, hs, hd⟩ := exists_of_scanExponent h
  cases ht : digitRun t with
  | mk ds u =>
    rw [scanExponent_eq hd ht hs] at h
    obtain ⟨rfl, hpower⟩ := scanPower_anywhere h
    obtain ⟨_, p, rfl, hdigits⟩ := digitRun_front ht
    rcases hs with ⟨rfl, rfl⟩ | ⟨rfl | rfl, rfl⟩
    · refine ⟨'-' :: d :: p, rfl, fun r' hends => ?_⟩
      exact (scanExponent_eq hd (hdigits r' hends) (.inl ⟨rfl, rfl⟩)).trans (hpower r')
    · refine ⟨'+' :: d :: p, rfl, fun r' hends => ?_⟩
      exact (scanExponent_eq hd (hdigits r' hends) (.inr ⟨.inl rfl, rfl⟩)).trans (hpower r')
    · refine ⟨d :: p, rfl, fun r' hends => ?_⟩
      exact (scanExponent_eq hd (hdigits r' hends) (.inr ⟨.inr rfl, rfl⟩)).trans (hpower r')

/-- An exponent, or what a number is without one. -/
def scanMarked (negative : Bool) (sig : Nat) (e : Int) (bare : List Char → Scan Number) (s : List Char) : Scan Number :=
  match s with
  | 'e' :: r | 'E' :: r => scanExponent negative sig e r
  | _ => bare s

theorem scanMarked_bare {bare : List Char → Scan Number} (he : ∀ t, s ≠ 'e' :: t) (hE : ∀ t, s ≠ 'E' :: t) :
    scanMarked negative sig e bare s = bare s := by
  unfold scanMarked
  split
  next => exact absurd rfl (he _)
  next => exact absurd rfl (hE _)
  next => rfl

theorem scanMarked_front {bare : List Char → Scan Number} (hbare : ∀ s r, bare s = .ok (n, r) →
      s = r ∧ ∀ s', bare s' = .ok (n, s')) (h : scanMarked negative sig e bare s = .ok (n, r)) (hr : EndsNumber r) :
    NoDigit s ∧ Front EndsNumber (fun s r => scanMarked negative sig e bare s = .ok (n, r)) s r := by
  unfold scanMarked at h
  split at h
  next =>
    have hexponent := (scanExponent_front h).mono fun r hr => EndsNumber.not_digit hr
    exact ⟨rfl, hexponent.word ['e'] fun _ _ _ hs => hs⟩
  next =>
    have hexponent := (scanExponent_front h).mono fun r hr => EndsNumber.not_digit hr
    exact ⟨rfl, hexponent.word ['E'] fun _ _ _ hs => hs⟩
  next =>
    obtain ⟨rfl, hanywhere⟩ := hbare _ _ h
    refine ⟨hr.not_digit, [], rfl, fun r' hends => (scanMarked_bare ?_ ?_).trans (hanywhere r')⟩
    · rintro t rfl
      exact (hends 'e' rfl).2.2.1 rfl
    · rintro t rfl
      exact (hends 'E' rfl).2.2.2 rfl

theorem scanFraction_eq {ds : List Char} (hds : ds ≠ []) (hs : digitRun s = (ds, u)) :
    scanFraction negative sig e s =
      let (sig, left) := absorb sig ds
      let e := e - (ds.length - left.length : Nat)
      scanMarked negative sig e (scanScaled negative sig e) u := by
  have hds : ds.isEmpty = false := List.isEmpty_eq_false_iff.2 hds
  simp only [scanFraction, hs, hds, Bool.false_eq_true, if_false]
  rfl

theorem scanFraction_front (h : scanFraction negative sig e s = .ok (n, r)) (hr : EndsNumber r) :
    Front EndsNumber (fun s r => scanFraction negative sig e s = .ok (n, r)) s r := by
  cases hs : digitRun s with
  | mk ds u =>
    have hds : ds ≠ [] := by
      rintro rfl
      simp only [scanFraction, hs, List.isEmpty_nil, if_true] at h
      cases h
    rw [scanFraction_eq hds hs] at h
    obtain ⟨_, hdigits⟩ := digitRun_front hs
    have hmarked := (scanMarked_front (fun _ _ => scanScaled_anywhere) h hr).2
    refine (hdigits.seq hmarked fun t r hr ht => ?_).imp fun s r _ ⟨t, hs, ht⟩ => (scanFraction_eq hds hs).trans ht
    exact (scanMarked_front (fun _ _ => scanScaled_anywhere) ht hr).1

def wholeOrScaled (negative : Bool) (sig : Nat) (left s : List Char) : Scan Number :=
  if left.isEmpty then .ok (wholeNumber negative sig, s) else scanScaled negative sig left.length s

theorem wholeOrScaled_anywhere {left : List Char} (h : wholeOrScaled negative sig left s = .ok (n, r)) :
    s = r ∧ ∀ s', wholeOrScaled negative sig left s' = .ok (n, s') := by
  unfold wholeOrScaled at h ⊢
  split at h
  next hleft =>
    cases h
    simp only [hleft, if_true, implies_true, and_self]
  next hleft =>
    obtain ⟨hrest, hanywhere⟩ := scanScaled_anywhere h
    exact ⟨hrest, fun s' => (if_neg hleft).trans (hanywhere s')⟩

def scanPointed (negative : Bool) (sig : Nat) (left s : List Char) : Scan Number :=
  match s with
  | '.' :: r => scanFraction negative sig left.length r
  | _ => scanMarked negative sig left.length (wholeOrScaled negative sig left) s

theorem scanPointed_eq {left : List Char} (hs : ∀ t, s ≠ '.' :: t) :
    scanPointed negative sig left s = scanMarked negative sig left.length (wholeOrScaled negative sig left) s := by
  unfold scanPointed
  split
  next => exact absurd rfl (hs _)
  next => rfl

theorem scanPointed_front {left : List Char} (h : scanPointed negative sig left s = .ok (n, r)) (hr : EndsNumber r) :
    NoDigit s ∧ Front EndsNumber (fun s r => scanPointed negative sig left s = .ok (n, r)) s r := by
  unfold scanPointed at h
  split at h
  next => exact ⟨rfl, (scanFraction_front h hr).word ['.'] fun _ _ _ hs => hs⟩
  next hpoint =>
    obtain ⟨hdigit, p, rfl, hmarked⟩ := scanMarked_front (fun _ _ => wholeOrScaled_anywhere) h hr
    refine ⟨hdigit, p, rfl, fun r' hends => ?_⟩
    -- a point is neither in front nor behind
    have hnone : ∀ t, p ++ r' ≠ '.' :: t := by
      intro t ht
      cases p with
      | nil =>
        rw [List.nil_append] at ht
        exact (hends '.' (by rw [ht]; rfl)).2.1 rfl
      | cons c p =>
        cases ht
        exact hpoint _ rfl
    exact (scanPointed_eq hnone).trans (hmarked r' hends)

theorem scanNumber_eq {d : Char} {ds : List Char} (hd : isDigit d = true) (ht : digitRun t = (ds, u))
    (hzero : d = '0' → ds = []) : scanNumber negative (d :: t) =
      scanPointed negative (absorb 0 (d :: ds)).1 (absorb 0 (d :: ds)).2 u := by
  have hrun : digitRun (d :: t) = (d :: ds, u) := by
    rw [digitRun, List.span_eq_takeWhile_dropWhile, Prod.mk.injEq] at ht ⊢
    rw [List.takeWhile_cons_of_pos hd, List.dropWhile_cons_of_pos hd, ht.1, ht.2]
    exact ⟨rfl, rfl⟩
  have hhead : ¬ (d = '0' ∧ t.head?.any isDigit = true) := by
    rintro ⟨rfl, hhead⟩
    have hempty := isEmpty_fst_digitRun t
    rw [ht, hzero rfl, hhead] at hempty
    cases hempty
  simp only [scanNumber, hd, Bool.not_true, Bool.false_eq_true, if_false, if_neg hhead, hrun]
  split
  next => rfl
  next => rfl
  next => rfl
  next hpoint he hE =>
    rw [scanPointed_eq hpoint, scanMarked_bare he hE]
    rfl

theorem exists_of_scanNumber (h : scanNumber negative s = .ok (n, r)) :
    ∃ d t, s = d :: t ∧ isDigit d = true ∧ (d = '0' → (digitRun t).1 = []) := by
  unfold scanNumber at h
  split at h
  · cases h
  rename_i d t
  split at h
  · cases h
  rename_i hd
  split at h
  · cases h
  rename_i hzero
  refine ⟨d, t, rfl, by simpa using hd, fun hd => ?_⟩
  rw [← List.isEmpty_iff, isEmpty_fst_digitRun, Bool.eq_false_iff.2 fun hhead => hzero ⟨hd, hhead⟩, Bool.not_false]

theorem scanNumber_front (h : scanNumber negative s = .ok (n, r)) (hr : EndsNumber r) :
    Front EndsNumber (fun s r => scanNumber negative s = .ok (n, r)) s r := by
  obtain ⟨d, t, rfl, hd, hzero⟩ := exists_of_scanNumber h
  cases ht : digitRun t with
  | mk ds u =>
    rw [ht] at hzero
    rw [scanNumber_eq hd ht hzero] at h
    obtain ⟨_, hdigits⟩ := digitRun_front ht
    have hpointed := (scanPointed_front h hr).2
    have hrest := hdigits.seq hpointed fun t r hr ht => (scanPointed_front ht hr).1
    exact hrest.word [d] fun s r _ ⟨t, hs, ht⟩ => (scanNumber_eq hd hs hzero).trans ht

end Numbers

end Autodoc.Json
