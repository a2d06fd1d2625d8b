import Autodoc.Proofs.Printing
import Autodoc.Proofs.Skimming

namespace Autodoc.Json

variable {s t u r : List Char}

/-- A relation of a text and its rest that holds for what stands in front of the rest: it holds too with any other rest
that is `C`. -/
def Front (C : List Char → Prop) (R : List Char → List Char → Prop) (s r : List Char) : Prop :=
  ∃ p, s = p ++ r ∧ ∀ r', C r' → R (p ++ r') r'

namespace Front

variable {C C' : List Char → Prop} {R R' R'' : List Char → List Char → Prop}

theorem length_le (h : Front C R s r) : r.length ≤ s.length := by
  obtain ⟨p, rfl, _⟩ := h
  rw [List.length_append]
  exact Nat.le_add_left _ _

theorem imp (h : Front C R s r) (himp : ∀ s r, C r → R s r → R' s r) : Front C R' s r := by
  obtain ⟨p, hp, hrest⟩ := h
  exact ⟨p, hp, fun r' hr' => himp _ _ hr' (hrest r' hr')⟩

theorem seq (h : Front C R s t) (h' : Front C' R' t r) (hC : ∀ t r, C' r → R' t r → C t) :
    Front C' (fun s r => ∃ t, R s t ∧ R' t r) s r := by
  obtain ⟨p, rfl, hp⟩ := h
  obtain ⟨q, rfl, hq⟩ := h'
  refine ⟨p ++ q, (List.append_assoc p q r).symm, fun r' hr' => ?_⟩
  have hsecond := hq r' hr'
  rw [List.append_assoc]
  exact ⟨_, hp _ (hC _ _ hr' hsecond), hsecond⟩

theorem mono (h : Front C R s r) (hC : ∀ r, C' r → C r) : Front C' R s r := by
  obtain ⟨p, hp, hrest⟩ := h
  exact ⟨p, hp, fun r' hr' => hrest r' (hC r' hr')⟩

end Front

abbrev Free (R : List Char → List Char → Prop) : List Char → List Char → Prop := Front (fun _ => True) R

theorem Free.seq {R R' : List Char → List Char → Prop} (h : Free R s t) (h' : Free R' t r) :
    Free (fun s r => ∃ t, R s t ∧ R' t r) s r :=
  Front.seq h h' fun _ _ _ _ => trivial

theorem Free.refl {R : List Char → List Char → Prop} (h : ∀ s, R s s) (s : List Char) : Free R s s :=
  ⟨[], rfl, fun r' _ => h r'⟩

theorem free_word (w s : List Char) : Free (fun s r => s = w ++ r) (w ++ s) s := ⟨w, rfl, fun _ _ => rfl⟩

theorem Front.word {C : List Char → Prop} {R R' : List Char → List Char → Prop} (w : List Char) (h : Front C R s r)
    (himp : ∀ s r, C r → R s r → R' (w ++ s) r) : Front C R' (w ++ s) r :=
  (Front.seq (free_word w s) h fun _ _ _ _ => trivial).imp fun _ _ hr ⟨_, hs, ht⟩ => hs ▸ himp _ _ hr ht

namespace Grammar

inductive Blanks : List Char → List Char → Prop
  | nil {s : List Char} : Blanks s s
  | cons {c : Char} {s r : List Char} (hc : c = ' ' ∨ c = '\n' ∨ c = '\t' ∨ c = '\r') (h : Blanks s r) :
      Blanks (c :: s) r

inductive Digits : List Char → List Char → Prop
  | nil {s : List Char} : Digits s s
  | cons {d : Char} {s r : List Char} (hd : d.isDigit = true) (h : Digits s r) : Digits (d :: s) r

/-- Digits before the point. A zero stands alone. -/
inductive Whole : List Char → List Char → Prop
  | zero {s : List Char} : Whole ('0' :: s) s
  | other {d : Char} {s r : List Char} (hd : d.isDigit = true) (hne : d ≠ '0') (h : Digits s r) : Whole (d :: s) r

inductive Fraction : List Char → List Char → Prop
  | none {s : List Char} : Fraction s s
  | some {d : Char} {s r : List Char} (hd : d.isDigit = true) (h : Digits s r) : Fraction ('.' :: d :: s) r

inductive Sign : List Char → List Char → Prop
  | none {s : List Char} : Sign s s
  | plus {s : List Char} : Sign ('+' :: s) s
  | minus {s : List Char} : Sign ('-' :: s) s

inductive Exponent : List Char → List Char → Prop
  | none {s : List Char} : Exponent s s
  | some {e d : Char} {s t r : List Char} (he : e = 'e' ∨ e = 'E') (hs : Sign s (d :: t)) (hd : d.isDigit = true)
      (h : Digits t r) : Exponent (e :: s) r

/-- A number without its sign. -/
inductive Magnitude : List Char → List Char → Prop
  | mk {s t u r : List Char} (hs : Whole s t) (ht : Fraction t u) (hu : Exponent u r) : Magnitude s r

def IsHexDigit (c : Char) : Prop := ('0' ≤ c ∧ c ≤ '9') ∨ ('a' ≤ c ∧ c ≤ 'f') ∨ ('A' ≤ c ∧ c ≤ 'F')

inductive Text : List Char → List Char → Prop
  | quote {r : List Char} : Text ('"' :: r) r
  | plain {c : Char} {s r : List Char} (hq : c ≠ '"') (hb : c ≠ '\\') (hc : 0x20 ≤ c.toNat) (h : Text s r) :
      Text (c :: s) r
  | letter {c : Char} {s r : List Char} (hc : c ∈ ['"', '\\', '/', 'b', 'f', 'n', 'r', 't']) (h : Text s r) :
      Text ('\\' :: c :: s) r
  | unit {a b c d : Char} {s r : List Char} (ha : IsHexDigit a) (hb : IsHexDigit b) (hc : IsHexDigit c)
      (hd : IsHexDigit d) (h : Text s r) : Text ('\\' :: 'u' :: a :: b :: c :: d :: s) r

inductive Key : List Char → List Char → Prop
  | mk {s t u r : List Char} (hs : Blanks s ('"' :: t)) (ht : Text t u) (hu : Blanks u (':' :: r)) : Key s r

inductive Symbol where
  | value
  | items
  | members

inductive Derives : Symbol → List Char → List Char → Prop
  | null {s r : List Char} (hs : Blanks s ("null".toList ++ r)) : Derives .value s r
  | yes {s r : List Char} (hs : Blanks s ("true".toList ++ r)) : Derives .value s r
  | no {s r : List Char} (hs : Blanks s ("false".toList ++ r)) : Derives .value s r
  | number {s t r : List Char} (hs : Blanks s t) (ht : Magnitude t r) : Derives .value s r
  | negative {s t r : List Char} (hs : Blanks s ('-' :: t)) (ht : Magnitude t r) : Derives .value s r
  | text {s t r : List Char} (hs : Blanks s ('"' :: t)) (ht : Text t r) : Derives .value s r
  | emptyList {s t r : List Char} (hs : Blanks s ('[' :: t)) (ht : Blanks t (']' :: r)) : Derives .value s r
  | list {s t u r : List Char} (hs : Blanks s ('[' :: t)) (ht : Derives .value t u) (hu : Derives .items u r) :
      Derives .value s r
  | emptyObject {s t r : List Char} (hs : Blanks s ('{' :: t)) (ht : Blanks t ('}' :: r)) : Derives .value s r
  | object {s t u v r : List Char} (hs : Blanks s ('{' :: t)) (ht : Key t u) (hu : Derives .value u v)
      (hv : Derives .members v r) : Derives .value s r
  | lastItem {s r : List Char} (hs : Blanks s (']' :: r)) : Derives .items s r
  | nextItem {s t u r : List Char} (hs : Blanks s (',' :: t)) (ht : Derives .value t u) (hu : Derives .items u r) :
      Derives .items s r
  | lastMember {s r : List Char} (hs : Blanks s ('}' :: r)) : Derives .members s r
  | nextMember {s t u v r : List Char} (hs : Blanks s (',' :: t)) (ht : Key t u) (hu : Derives .value u v)
      (hv : Derives .members v r) : Derives .members s r

/-- A whole text that is one value, with blanks around it. -/
def IsDocument (s : List Char) : Prop := ∃ r, Derives .value s r ∧ Blanks r []

theorem isBlank_iff {c : Char} : isBlank c = true ↔ c = ' ' ∨ c = '\n' ∨ c = '\t' ∨ c = '\r' := by
  simp only [isBlank, Bool.or_eq_true, decide_eq_true_eq, or_assoc]

theorem Blanks.trans (h : Blanks s t) (ht : Blanks t r) : Blanks s r := by
  induction h with
  | nil => exact ht
  | cons hc _ ih => exact .cons hc (ih ht)

theorem Blanks.length_le (h : Blanks s r) : r.length ≤ s.length := by
  induction h with
  | nil => exact Nat.le_refl _
  | cons _ _ ih => exact ih.trans (Nat.le_succ _)

theorem blanks_skipBlanks (s : List Char) : Blanks s (skipBlanks s) := by
  induction s with
  | nil => exact .nil
  | cons c s ih =>
    rw [skipBlanks]
    by_cases hc : isBlank c = true
    · rw [List.dropWhile_cons_of_pos hc]
      exact .cons (isBlank_iff.1 hc) ih
    · rw [List.dropWhile_cons_of_neg hc]
      exact .nil

theorem Blanks.skipBlanks_eq (h : Blanks s t) : skipBlanks s = skipBlanks t := by
  induction h with
  | nil => rfl
  | cons hc _ ih => exact (List.dropWhile_cons_of_pos (isBlank_iff.2 hc)).trans ih

theorem Blanks.skipBlanks_cons {c : Char} (h : Blanks s (c :: t)) (hc : isBlank c = false) :
    skipBlanks s = c :: t := by
  rw [h.skipBlanks_eq, skipBlanks_of_not hc]

theorem blanks_of_skipBlanks (h : skipBlanks s = t) : Blanks s t := h ▸ blanks_skipBlanks s

/-- What begins with a blank, or with something else with which no number goes on, ends a number. -/
theorem Blanks.endsNumber (h : Blanks s t) (ht : EndsNumber t) : EndsNumber s := by
  cases h with
  | nil => exact ht
  | cons hc _ =>
    apply endsNumber_cons
    rcases hc with rfl | rfl | rfl | rfl <;> decide

theorem isHexDigit_iff {c : Char} : IsHexDigit c ↔ ∃ n, hexDigit? c = some n := by
  unfold hexDigit?
  split
  next h => exact iff_of_true (.inl h) ⟨_, rfl⟩
  next hdigit =>
    split
    next h => exact iff_of_true (.inr (.inl h)) ⟨_, rfl⟩
    next hlower =>
      split
      next h => exact iff_of_true (.inr (.inr h)) ⟨_, rfl⟩
      next hupper =>
        refine iff_of_false ?_ nofun
        rintro (h | h | h)
        · exact hdigit h
        · exact hlower h
        · exact hupper h

theorem isHexDigit_of_hexDigits? {cs : List Char} {n : Nat} (h : hexDigits? cs = some n) :
    ∀ c ∈ cs, IsHexDigit c := by
  rw [hexDigits?] at h
  generalize 0 = start at h
  induction cs generalizing start with
  | nil => exact nofun
  | cons c cs ih =>
    rw [List.foldlM_cons, Option.bind_eq_bind, Option.bind_eq_some_iff] at h
    obtain ⟨next, hc, hcs⟩ := h
    obtain ⟨digit, hc, _⟩ := Option.map_eq_some_iff.1 hc
    exact List.forall_mem_cons.2 ⟨isHexDigit_iff.2 ⟨digit, hc⟩, ih next hcs⟩

theorem scanUnit_isHexDigit {a b c d : Char} (ha : IsHexDigit a) (hb : IsHexDigit b) (hc : IsHexDigit c)
    (hd : IsHexDigit d) (r : List Char) : ∃ n, scanUnit (a :: b :: c :: d :: r) = .ok (n, r) := by
  obtain ⟨i, ha⟩ := isHexDigit_iff.1 ha
  obtain ⟨j, hb⟩ := isHexDigit_iff.1 hb
  obtain ⟨k, hc⟩ := isHexDigit_iff.1 hc
  obtain ⟨l, hd⟩ := isHexDigit_iff.1 hd
  have hdigits : hexDigits? [a, b, c, d] = some ((((0 * 16 + i) * 16 + j) * 16 + k) * 16 + l) := by
    simp only [hexDigits?, List.foldlM_cons, List.foldlM_nil, ha, hb, hc, hd]
    rfl
  refine ⟨(((0 * 16 + i) * 16 + j) * 16 + k) * 16 + l, ?_⟩
  simp only [scanUnit, hdigits]

theorem exists_of_scanUnit {n : Nat} (h : scanUnit s = .ok (n, r)) :
    ∃ a b c d, s = a :: b :: c :: d :: r ∧ IsHexDigit a ∧ IsHexDigit b ∧ IsHexDigit c ∧ IsHexDigit d := by
  unfold scanUnit at h
  split at h
  next a b c d r' =>
    split at h
    next hdigits =>
      cases h
      have hall := isHexDigit_of_hexDigits? hdigits
      simp only [List.forall_mem_cons] at hall
      obtain ⟨ha, hb, hc, hd, _⟩ := hall
      exact ⟨a, b, c, d, rfl, ha, hb, hc, hd⟩
    next => cases h
  next => split at h <;> cases h

theorem text_of_skimString (h : skimString s = .ok r) : Text s r := by
  induction s using skimString.induct with
  | case1 =>
    rw [skimString] at h
    cases h
  | case2 s =>
    rw [skimString_quote] at h
    cases h
    exact .quote
  | case3 =>
    rw [skimString] at h
    cases h
  | case4 s e he =>
    rw [skimString, if_pos rfl] at h
    split at h
    · cases h
    · rename_i hu
      cases he.symm.trans hu
  | case5 s n s' hu ih =>
    rw [skimString_unit hu] at h
    obtain ⟨a, b, c, d, rfl, ha, hb, hc, hd⟩ := exists_of_scanUnit hu
    exact .unit ha hb hc hd (ih h)
  | case6 c s hu hc ih =>
    rw [skimString_letter hu hc] at h
    exact .letter hc (ih h)
  | case7 c s hu hc =>
    rw [skimString] at h
    simp only [if_neg hu, if_neg hc] at h
    cases h
  | case8 c s hq hnil hcons hc =>
    rw [skimString, if_pos hc] at h
    · cases h
    all_goals assumption
  | case9 c s hq hnil hcons hc ih =>
    rw [skimString, if_neg hc] at h
    · refine .plain ?_ ?_ (Nat.le_of_not_lt hc) (ih h)
      · exact hq
      · rintro rfl
        cases s with
        | nil => exact hnil rfl rfl
        | cons d s => exact hcons d s rfl rfl
    all_goals assumption

theorem Text.skimString (h : Text s r) : skimString s = .ok r := by
  induction h with
  | quote => exact skimString_quote
  | plain hq hb hc _ ih => rw [skimString_plain hq hb (Nat.not_lt_of_ge hc), ih]
  | letter hc _ ih =>
    rw [skimString_letter ?_ hc, ih]
    rintro rfl
    exact absurd hc (by decide)
  | @unit a b c d s r ha hb hc hd _ ih =>
    obtain ⟨n, hu⟩ := scanUnit_isHexDigit ha hb hc hd s
    rw [skimString_unit hu, ih]

theorem digits_digitRun (s : List Char) : Digits s (digitRun s).2 := by
  rw [snd_digitRun]
  induction s with
  | nil => exact .nil
  | cons c s ih =>
    by_cases hc : isDigit c = true
    · rw [List.dropWhile_cons_of_pos hc]
      exact .cons (isDigit_iff.1 hc) ih
    · rw [List.dropWhile_cons_of_neg hc]
      exact .nil

theorem Digits.snd_digitRun (h : Digits s r) (hr : r.head?.any isDigit = false) : (digitRun s).2 = r := by
  induction h with
  | nil => exact snd_digitRun_of_head hr
  | cons hd _ ih => rw [snd_digitRun_cons (isDigit_iff.2 hd), ih hr]

theorem Exponent.not_digit (h : Exponent s r) (hr : EndsNumber r) : s.head?.any isDigit = false := by
  cases h with
  | none => exact hr.not_digit
  | some he => rcases he with rfl | rfl <;> rfl

theorem Fraction.not_digit (h : Fraction s t) (ht : Exponent t r) (hr : EndsNumber r) :
    s.head?.any isDigit = false := by
  cases h with
  | none => exact ht.not_digit hr
  | some => rfl

theorem exponent_of_skimExponent {e : Char} (he : e = 'e' ∨ e = 'E') (h : skimExponent s = .ok r) :
    Exponent (e :: s) r := by
  unfold skimExponent at h
  dsimp only at h
  split at h
  · cases h
  rename_i c t ht
  have hsign : Sign s (c :: t) := by
    split at ht
    · cases ht
      exact .plus
    · cases ht
      exact .minus
    · cases ht
      exact .none
  split at h
  next hc =>
    cases h
    exact .some he hsign (isDigit_iff.1 hc) (digits_digitRun t)
  next => cases h

theorem skimExponent_of_digits {d : Char} (hs : Sign s (d :: t)) (hd : d.isDigit = true) (ht : Digits t r)
    (hr : EndsNumber r) : skimExponent s = .ok r := by
  have hform : s = '+' :: d :: t ∨ s = '-' :: d :: t ∨ s = d :: t := by
    cases hs with
    | none => exact .inr (.inr rfl)
    | plus => exact .inl rfl
    | minus => exact .inr (.inl rfl)
  rw [skimExponent_eq hform (isDigit_iff.2 hd), ht.snd_digitRun (hr.not_digit)]

theorem isEmpty_fst_digitRun (s : List Char) : (digitRun s).1.isEmpty = !s.head?.any isDigit := by
  rw [digitRun, List.span_eq_takeWhile_dropWhile]
  cases s with
  | nil => rfl
  | cons c s =>
    cases hc : isDigit c with
    | true => simp only [List.takeWhile_cons_of_pos hc, List.isEmpty_cons, List.head?_cons, Option.any_some, hc,
        Bool.not_true]
    | false => simp only [List.takeWhile_cons, hc, Bool.false_eq_true, if_false, List.isEmpty_nil, List.head?_cons,
        Option.any_some, Bool.not_false]

theorem fraction_of_skimFraction (h : skimFraction s = .ok r) : ∃ t, Fraction ('.' :: s) t ∧ Exponent t r := by
  unfold skimFraction at h
  dsimp only at h
  rw [isEmpty_fst_digitRun] at h
  cases s with
  | nil => cases h
  | cons d s =>
    cases hd : isDigit d with
    | false =>
      simp only [List.head?_cons, Option.any_some, hd, Bool.not_false, if_true] at h
      cases h
    | true =>
      simp only [List.head?_cons, Option.any_some, hd, Bool.not_true, Bool.false_eq_true, if_false,
        snd_digitRun_cons hd] at h
      refine ⟨_, .some (isDigit_iff.1 hd) (digits_digitRun s), ?_⟩
      generalize (digitRun s).2 = t at h
      split at h
      · exact exponent_of_skimExponent (.inl rfl) h
      · exact exponent_of_skimExponent (.inr rfl) h
      · cases h
        exact .none

theorem skimFraction_of_digits {d : Char} (hd : d.isDigit = true) (hs : Digits s t) (ht : Exponent t r)
    (hr : EndsNumber r) : skimFraction (d :: s) = .ok r := by
  have hd := isDigit_iff.2 hd
  unfold skimFraction
  dsimp only
  rw [isEmpty_fst_digitRun, snd_digitRun_cons hd, hs.snd_digitRun (ht.not_digit hr)]
  simp only [List.head?_cons, Option.any_some, hd, Bool.not_true, Bool.false_eq_true, if_false]
  cases ht with
  | none =>
    split
    · exact absurd rfl (hr 'e' rfl).2.2.1
    · exact absurd rfl (hr 'E' rfl).2.2.2
    · rfl
  | some he hsign hd hdigits => rcases he with rfl | rfl <;> exact skimExponent_of_digits hsign hd hdigits hr

theorem magnitude_of_skimNumber (h : skimNumber s = .ok r) : Magnitude s r := by
  unfold skimNumber at h
  split at h
  · cases h
  rename_i c t
  split at h
  · cases h
  rename_i hc
  rw [Bool.not_eq_true, Bool.not_eq_false'] at hc
  split at h
  · cases h
  have hwhole : Whole (c :: t) (if c = '0' then t else (digitRun t).2) := by
    split
    next hzero =>
      subst hzero
      exact .zero
    next hne => exact .other (isDigit_iff.1 hc) hne (digits_digitRun t)
  generalize (if c = '0' then t else (digitRun t).2) = u at h hwhole
  split at h
  · obtain ⟨v, hfraction, hexponent⟩ := fraction_of_skimFraction h
    exact .mk hwhole hfraction hexponent
  · exact .mk hwhole .none (exponent_of_skimExponent (.inl rfl) h)
  · exact .mk hwhole .none (exponent_of_skimExponent (.inr rfl) h)
  · cases h
    exact .mk hwhole .none .none

/-- What is passed over behind the whole part of a number. -/
def skimTail : List Char → Except Fault (List Char)
  | '.' :: r => skimFraction r
  | 'e' :: r | 'E' :: r => skimExponent r
  | r => .ok r

theorem skimTail_of_digits (ht : Fraction t u) (hu : Exponent u r) (hr : EndsNumber r) : skimTail t = .ok r := by
  cases ht with
  | some hd hdigits => exact skimFraction_of_digits hd hdigits hu hr
  | none =>
    cases hu with
    | some he hsign hd hdigits => rcases he with rfl | rfl <;> exact skimExponent_of_digits hsign hd hdigits hr
    | none =>
      unfold skimTail
      split
      · exact absurd rfl (hr '.' rfl).2.1
      · exact absurd rfl (hr 'e' rfl).2.2.1
      · exact absurd rfl (hr 'E' rfl).2.2.2
      · rfl

theorem Magnitude.skimNumber (h : Magnitude s r) (hr : EndsNumber r) : skimNumber s = .ok r := by
  cases h with
  | mk hs ht hu =>
    have hstop := ht.not_digit hu hr
    have htail := skimTail_of_digits ht hu hr
    cases hs with
    | zero =>
      have hzero : isDigit '0' = true := rfl
      simp only [Json.skimNumber, hzero, hstop, Bool.not_true, Bool.false_eq_true, if_false, and_false, if_true]
      exact htail
    | other hd hne hdigits =>
      simp only [Json.skimNumber, isDigit_iff.2 hd, Bool.not_true, Bool.false_eq_true, if_false, hne, false_and,
        hdigits.snd_digitRun hstop]
      exact htail

theorem eq_of_scanWord {w : List Char} (h : scanWord w s = .ok r) : s = w ++ r := by
  induction w generalizing s with
  | nil =>
    cases h
    rfl
  | cons c w ih =>
    cases s with
    | nil => cases h
    | cons d s =>
      rw [scanWord] at h
      split at h
      next hc => rw [hc, ih h, List.cons_append]
      next => cases h

theorem blanks_of_scanColon (h : scanColon s = .ok r) : Blanks s (':' :: r) := by
  unfold scanColon at h
  split at h
  next => cases h
  next hs =>
    cases h
    exact blanks_of_skipBlanks hs
  next => cases h

theorem Blanks.scanColon (h : Blanks s (':' :: r)) : scanColon s = .ok r := by
  simp only [Json.scanColon, h.skipBlanks_cons rfl]

theorem Key.blanks (h : Key t r) (hs : Blanks s t) : Key s r := by
  cases h with
  | mk ht hu hv => exact .mk (hs.trans ht) hu hv

theorem key_of_skimKey (h : skimKey s = .ok r) : Key s r := by
  unfold skimKey at h
  split at h
  next => cases h
  next hs =>
    split at h
    · cases h
    rename_i hk
    exact .mk (blanks_of_skipBlanks hs) (text_of_skimString hk) (blanks_of_scanColon h)
  next => cases h

theorem Key.skimKey (h : Key s r) : skimKey s = .ok r := by
  cases h with
  | mk hs ht hu => simp only [Json.skimKey, hs.skipBlanks_cons rfl, ht.skimString, hu.scanColon]

/-- Blanks may be put in front of whatever is derived. -/
theorem Derives.blanks {x : Symbol} (h : Derives x t r) (hs : Blanks s t) : Derives x s r := by
  cases h with
  | null ht => exact .null (hs.trans ht)
  | yes ht => exact .yes (hs.trans ht)
  | no ht => exact .no (hs.trans ht)
  | number ht hu => exact .number (hs.trans ht) hu
  | negative ht hu => exact .negative (hs.trans ht) hu
  | text ht hu => exact .text (hs.trans ht) hu
  | emptyList ht hu => exact .emptyList (hs.trans ht) hu
  | list ht hu hv => exact .list (hs.trans ht) hu hv
  | emptyObject ht hu => exact .emptyObject (hs.trans ht) hu
  | object ht hu hv hw => exact .object (hs.trans ht) hu hv hw
  | lastItem ht => exact .lastItem (hs.trans ht)
  | nextItem ht hu hv => exact .nextItem (hs.trans ht) hu hv
  | lastMember ht => exact .lastMember (hs.trans ht)
  | nextMember ht hu hv hw => exact .nextMember (hs.trans ht) hu hv hw

section Skim

variable {skim : List Char → Except Fault (List Char)} {fuel : Nat}

theorem items_of_skimItems (hskim : ∀ t u, skim t = .ok u → Derives .value t u)
    (h : skimItems skim fuel false s = .ok r) : Derives .items s r := by
  induction fuel generalizing s with
  | zero => cases h
  | succ fuel ih =>
    rw [skimItems] at h
    split at h
    next => cases h
    next hs =>
      cases h
      exact .lastItem (blanks_of_skipBlanks hs)
    next c t _ hs =>
      rw [if_neg Bool.false_ne_true] at h
      split at h
      next hc =>
        subst hc
        beta_reduce at h
        split at h
        next => cases h
        next hv => exact .nextItem (blanks_of_skipBlanks hs) (hskim _ _ hv) (ih h)
      next => cases h

theorem list_of_skimItems (hskim : ∀ t u, skim t = .ok u → Derives .value t u)
    (hs : Blanks s ('[' :: t)) (h : skimItems skim fuel true t = .ok r) : Derives .value s r := by
  cases fuel with
  | zero => cases h
  | succ fuel =>
    rw [skimItems] at h
    split at h
    next => cases h
    next ht =>
      cases h
      exact .emptyList hs (blanks_of_skipBlanks ht)
    next c u _ ht =>
      rw [if_pos rfl] at h
      beta_reduce at h
      split at h
      next => cases h
      next hv =>
        have hvalue := (hskim _ _ hv).blanks (blanks_of_skipBlanks ht)
        exact .list hs hvalue (items_of_skimItems hskim h)

theorem members_of_skimMembers (hskim : ∀ t u, skim t = .ok u → Derives .value t u)
    (h : skimMembers skim fuel false s = .ok r) : Derives .members s r := by
  induction fuel generalizing s with
  | zero => cases h
  | succ fuel ih =>
    rw [skimMembers] at h
    split at h
    next => cases h
    next hs =>
      cases h
      exact .lastMember (blanks_of_skipBlanks hs)
    next c t _ hs =>
      rw [if_neg Bool.false_ne_true] at h
      split at h
      next hc =>
        subst hc
        beta_reduce at h
        split at h
        next => cases h
        next hk =>
          split at h
          next => cases h
          next hv =>
            exact .nextMember (blanks_of_skipBlanks hs) (key_of_skimKey hk) (hskim _ _ hv) (ih h)
      next => cases h

theorem object_of_skimMembers (hskim : ∀ t u, skim t = .ok u → Derives .value t u)
    (hs : Blanks s ('{' :: t)) (h : skimMembers skim fuel true t = .ok r) : Derives .value s r := by
  cases fuel with
  | zero => cases h
  | succ fuel =>
    rw [skimMembers] at h
    split at h
    next => cases h
    next ht =>
      cases h
      exact .emptyObject hs (blanks_of_skipBlanks ht)
    next c u _ ht =>
      rw [if_pos rfl] at h
      beta_reduce at h
      split at h
      next => cases h
      next hk =>
        have hkey := (key_of_skimKey hk).blanks (blanks_of_skipBlanks ht)
        split at h
        next => cases h
        next hv => exact .object hs hkey (hskim _ _ hv) (members_of_skimMembers hskim h)

theorem derives_of_skimNested (h : skimNested fuel s = .ok r) : Derives .value s r := by
  induction fuel generalizing s r with
  | zero => cases h
  | succ fuel ih =>
    rw [skimNested] at h
    split at h
    next => cases h
    next hs =>
      rw [eq_of_scanWord h] at hs
      exact .null (blanks_of_skipBlanks hs)
    next hs =>
      rw [eq_of_scanWord h] at hs
      exact .yes (blanks_of_skipBlanks hs)
    next hs =>
      rw [eq_of_scanWord h] at hs
      exact .no (blanks_of_skipBlanks hs)
    next hs => exact .negative (blanks_of_skipBlanks hs) (magnitude_of_skimNumber h)
    next hs => exact .text (blanks_of_skipBlanks hs) (text_of_skimString h)
    next hs => exact list_of_skimItems (fun _ _ => ih) (blanks_of_skipBlanks hs) h
    next hs => exact object_of_skimMembers (fun _ _ => ih) (blanks_of_skipBlanks hs) h
    next hs =>
      split at h
      next => exact .number (blanks_of_skipBlanks hs) (magnitude_of_skimNumber h)
      next => cases h

end Skim

theorem Blanks.free (h : Blanks s r) : Free Blanks s r := by
  induction h with
  | nil => exact .refl (fun _ => .nil) _
  | @cons c _ _ hc _ ih => exact ih.word [c] fun _ _ _ => .cons hc

theorem Blanks.free_token (w : List Char) (h : Blanks s (w ++ r)) : Free (fun s r => Blanks s (w ++ r)) s r :=
  (h.free.seq (free_word w r)).imp fun _ _ _ ⟨_, hs, ht⟩ => ht ▸ hs

theorem Digits.free (h : Digits s r) : Free Digits s r := by
  induction h with
  | nil => exact .refl (fun _ => .nil) _
  | @cons d _ _ hd _ ih => exact ih.word [d] fun _ _ _ => .cons hd

theorem Whole.free (h : Whole s r) : Free Whole s r := by
  cases h with
  | zero => exact (free_word ['0'] r).imp fun _ _ _ hs => hs ▸ .zero
  | @other d _ _ hd hne hs => exact hs.free.word [d] fun _ _ _ => .other hd hne

theorem Fraction.free (h : Fraction s r) : Free Fraction s r := by
  cases h with
  | none => exact .refl (fun _ => .none) s
  | @some d _ _ hd hs => exact hs.free.word ['.', d] fun _ _ _ => .some hd

theorem Sign.free {d : Char} (h : Sign s (d :: r)) : Free (fun s r => Sign s (d :: r)) s r := by
  cases h with
  | none => exact (free_word [d] r).imp fun _ _ _ hs => hs ▸ .none
  | plus => exact (free_word ['+', d] r).imp fun _ _ _ hs => hs ▸ .plus
  | minus => exact (free_word ['-', d] r).imp fun _ _ _ hs => hs ▸ .minus

theorem Exponent.free (h : Exponent s r) : Free Exponent s r := by
  cases h with
  | none => exact .refl (fun _ => .none) s
  | @some e _ _ _ _ he hs hd ht => exact (hs.free.seq ht.free).word [e] fun _ _ _ ⟨_, hs, ht⟩ => .some he hs hd ht

theorem Magnitude.free (h : Magnitude s r) : Free Magnitude s r := by
  cases h with
  | mk hs ht hu => exact ((hs.free.seq ht.free).seq hu.free).imp fun _ _ _ ⟨_, ⟨_, hs, ht⟩, hu⟩ => .mk hs ht hu

theorem Text.free (h : Text s r) : Free Text s r := by
  induction h with
  | quote => exact (free_word ['"'] _).imp fun _ _ _ hs => hs ▸ .quote
  | @plain c _ _ hq hb hc _ ih => exact ih.word [c] fun _ _ _ => .plain hq hb hc
  | @letter c _ _ hc _ ih => exact ih.word ['\\', c] fun _ _ _ => .letter hc
  | @unit a b c d _ _ ha hb hc hd _ ih => exact ih.word ['\\', 'u', a, b, c, d] fun _ _ _ => .unit ha hb hc hd

theorem Key.free (h : Key s r) : Free Key s r := by
  cases h with
  | mk hs ht hu =>
    exact (((hs.free_token ['"']).seq ht.free).seq (hu.free_token [':'])).imp
      fun _ _ _ ⟨_, ⟨_, hs, ht⟩, hu⟩ => .mk hs ht hu

theorem Derives.free {x : Symbol} (h : Derives x s r) : Free (Derives x) s r := by
  induction h with
  | null hs => exact (hs.free_token _).imp fun _ _ _ => .null
  | yes hs => exact (hs.free_token _).imp fun _ _ _ => .yes
  | no hs => exact (hs.free_token _).imp fun _ _ _ => .no
  | number hs ht => exact (hs.free.seq ht.free).imp fun _ _ _ ⟨_, hs, ht⟩ => .number hs ht
  | negative hs ht => exact ((hs.free_token ['-']).seq ht.free).imp fun _ _ _ ⟨_, hs, ht⟩ => .negative hs ht
  | text hs ht => exact ((hs.free_token ['"']).seq ht.free).imp fun _ _ _ ⟨_, hs, ht⟩ => .text hs ht
  | emptyList hs ht =>
    exact ((hs.free_token ['[']).seq (ht.free_token [']'])).imp fun _ _ _ ⟨_, hs, ht⟩ => .emptyList hs ht
  | list hs _ _ iht ihu =>
    exact (((hs.free_token ['[']).seq iht).seq ihu).imp fun _ _ _ ⟨_, ⟨_, hs, ht⟩, hu⟩ => .list hs ht hu
  | emptyObject hs ht =>
    exact ((hs.free_token ['{']).seq (ht.free_token ['}'])).imp fun _ _ _ ⟨_, hs, ht⟩ => .emptyObject hs ht
  | object hs ht _ _ ihu ihv =>
    exact ((((hs.free_token ['{']).seq ht.free).seq ihu).seq ihv).imp
      fun _ _ _ ⟨_, ⟨_, ⟨_, hs, ht⟩, hu⟩, hv⟩ => .object hs ht hu hv
  | lastItem hs => exact (hs.free_token [']']).imp fun _ _ _ => .lastItem
  | nextItem hs _ _ iht ihu =>
    exact (((hs.free_token [',']).seq iht).seq ihu).imp fun _ _ _ ⟨_, ⟨_, hs, ht⟩, hu⟩ => .nextItem hs ht hu
  | lastMember hs => exact (hs.free_token ['}']).imp fun _ _ _ => .lastMember
  | nextMember hs ht _ _ ihu ihv =>
    exact ((((hs.free_token [',']).seq ht.free).seq ihu).seq ihv).imp
      fun _ _ _ ⟨_, ⟨_, ⟨_, hs, ht⟩, hu⟩, hv⟩ => .nextMember hs ht hu hv

theorem Magnitude.exists_digit (h : Magnitude s r) : ∃ d t, s = d :: t ∧ d.isDigit = true ∧ r.length ≤ t.length := by
  cases h with
  | mk hs ht hu =>
    have hfraction := ht.free.length_le
    have hexponent := hu.free.length_le
    cases hs with
    | zero => exact ⟨_, _, rfl, rfl, hexponent.trans hfraction⟩
    | other hd _ hs => exact ⟨_, _, rfl, hd, hexponent.trans (hfraction.trans hs.free.length_le)⟩

theorem Magnitude.skipBlanks_eq (h : Magnitude t r) (hs : Blanks s t) : skipBlanks s = t := by
  obtain ⟨d, u, rfl, hd, _⟩ := h.exists_digit
  exact hs.skipBlanks_cons (not_blank_of_isDigit (isDigit_iff.2 hd))

theorem Derives.exists_skipBlanks (h : Derives .value s r) :
    ∃ c t, skipBlanks s = c :: t ∧ c ≠ ']' ∧ r.length ≤ t.length := by
  cases h with
  | null hs => exact ⟨_, _, hs.skipBlanks_cons rfl, by decide, (free_word "ull".toList r).length_le⟩
  | yes hs => exact ⟨_, _, hs.skipBlanks_cons rfl, by decide, (free_word "rue".toList r).length_le⟩
  | no hs => exact ⟨_, _, hs.skipBlanks_cons rfl, by decide, (free_word "alse".toList r).length_le⟩
  | number hs ht =>
    have hblanks := ht.skipBlanks_eq hs
    obtain ⟨d, u, rfl, hd, hlength⟩ := ht.exists_digit
    refine ⟨d, u, hblanks, ?_, hlength⟩
    rintro rfl
    cases hd
  | negative hs ht => exact ⟨_, _, hs.skipBlanks_cons rfl, by decide, ht.free.length_le⟩
  | text hs ht => exact ⟨_, _, hs.skipBlanks_cons rfl, by decide, ht.free.length_le⟩
  | emptyList hs ht => exact ⟨_, _, hs.skipBlanks_cons rfl, by decide, (ht.free_token [']']).length_le⟩
  | list hs ht hu =>
    exact ⟨_, _, hs.skipBlanks_cons rfl, by decide, hu.free.length_le.trans ht.free.length_le⟩
  | emptyObject hs ht => exact ⟨_, _, hs.skipBlanks_cons rfl, by decide, (ht.free_token ['}']).length_le⟩
  | object hs ht hu hv =>
    have hmember := hu.free.length_le.trans ht.free.length_le
    exact ⟨_, _, hs.skipBlanks_cons rfl, by decide, hv.free.length_le.trans hmember⟩

theorem Derives.length_lt (h : Derives .value s r) : r.length < s.length := by
  obtain ⟨c, t, hs, _, hlength⟩ := h.exists_skipBlanks
  have hle := length_skipBlanks_le s
  rw [hs, List.length_cons] at hle
  omega

theorem Derives.endsNumber_items (h : Derives .items s r) : EndsNumber s := by
  cases h with
  | lastItem hs => exact hs.endsNumber (endsNumber_cons (by decide))
  | nextItem hs => exact hs.endsNumber (endsNumber_cons (by decide))

theorem Derives.endsNumber_members (h : Derives .members s r) : EndsNumber s := by
  cases h with
  | lastMember hs => exact hs.endsNumber (endsNumber_cons (by decide))
  | nextMember hs => exact hs.endsNumber (endsNumber_cons (by decide))

/-- A value ends where it does because it has its own end, or because no number goes on there. -/
inductive Delimited (s r : List Char) : Prop
  | ends (h : EndsNumber r)
  | bracket {t : List Char} (h : skipBlanks s = '[' :: t)
  | brace {t : List Char} (h : skipBlanks s = '{' :: t)

/-- What the readers that only look for the end of a value do with what is derived. -/
def Skimmed : Symbol → List Char → List Char → Prop
  | .value, s, r => Delimited s r → ∀ fuel, s.length < fuel → skimNested fuel s = .ok r
  | .items, s, r => ∀ fuel count, s.length < fuel → s.length < count →
      skimItems (skimNested fuel) count false s = .ok r
  | .members, s, r => ∀ fuel count, s.length < fuel → s.length < count →
      skimMembers (skimNested fuel) count false s = .ok r

theorem skimNested_of_scanWord {fuel : Nat} {c : Char} {w : List Char} (hs : Blanks s (c :: w ++ r))
    (hc : isBlank c = false) (hfuel : s.length < fuel)
    (hword : ∀ fuel t, skipBlanks s = c :: t → skimNested (fuel + 1) s = scanWord w t) : skimNested fuel s = .ok r := by
  obtain ⟨fuel, rfl⟩ := Nat.exists_eq_add_one_of_ne_zero (Nat.ne_zero_of_lt hfuel)
  rw [hword fuel _ (hs.skipBlanks_cons hc)]
  exact scanWord_append w r

theorem Delimited.number (h : Delimited s r) (hs : Blanks s t) (ht : Magnitude t r) : EndsNumber r := by
  have hblanks := ht.skipBlanks_eq hs
  obtain ⟨d, u, rfl, hd, _⟩ := ht.exists_digit
  cases h with
  | ends hr => exact hr
  | bracket h =>
    cases h.symm.trans hblanks
    cases hd
  | brace h =>
    cases h.symm.trans hblanks
    cases hd

theorem Delimited.negative (h : Delimited s r) (hs : Blanks s ('-' :: t)) : EndsNumber r := by
  have hblanks := hs.skipBlanks_cons rfl
  cases h with
  | ends hr => exact hr
  | bracket h => cases h.symm.trans hblanks
  | brace h => cases h.symm.trans hblanks

theorem skimItems_value {first : Bool} {fuel count : Nat} (hs : Begins first s (skipBlanks t))
    (ht : Derives .value t u) (hskim : skimNested (fuel + 1) t = .ok u) :
    skimItems (skimNested (fuel + 1)) (count + 1) first s = skimItems (skimNested (fuel + 1)) count false u := by
  obtain ⟨c, t', hblanks, hc, _⟩ := ht.exists_skipBlanks
  rw [← skimNested_skipBlanks, hblanks] at hskim
  rw [hblanks] at hs
  rw [skimItems_cons skimNested_skipBlanks hs hc, hskim]

theorem skimMembers_value {first : Bool} {fuel count : Nat} {v : List Char} (hs : Begins first s (skipBlanks t))
    (ht : Key t u) (hskim : skimNested fuel u = .ok v) :
    skimMembers (skimNested fuel) (count + 1) first s = skimMembers (skimNested fuel) count false v := by
  have hkey := ht.skimKey
  cases ht with
  | mk hquote _ _ =>
    rw [hquote.skipBlanks_cons rfl] at hs
    rw [← skimKey_skipBlanks, hquote.skipBlanks_cons rfl] at hkey
    rw [skimMembers_cons hs hkey, hskim]
    rfl

theorem skimNested_list {fuel : Nat} (hs : skipBlanks s = '[' :: t) :
    skimNested (fuel + 1) s = skimItems (skimNested fuel) fuel true t := by
  simp only [skimNested, hs]

theorem skimNested_object {fuel : Nat} (hs : skipBlanks s = '{' :: t) :
    skimNested (fuel + 1) s = skimMembers (skimNested fuel) fuel true t := by
  simp only [skimNested, hs]

theorem skimmed_of_derives {x : Symbol} (h : Derives x s r) : Skimmed x s r := by
  induction h with
  | null hs =>
    intro _ fuel hfuel
    exact skimNested_of_scanWord hs rfl hfuel fun fuel t ht => by simp only [skimNested, ht]; rfl
  | yes hs =>
    intro _ fuel hfuel
    exact skimNested_of_scanWord hs rfl hfuel fun fuel t ht => by simp only [skimNested, ht]; rfl
  | no hs =>
    intro _ fuel hfuel
    exact skimNested_of_scanWord hs rfl hfuel fun fuel t ht => by simp only [skimNested, ht]; rfl
  | number hs ht =>
    intro hr fuel hfuel
    have hnumber := ht.skimNumber (hr.number hs ht)
    have hblanks := ht.skipBlanks_eq hs
    obtain ⟨d, u, rfl, hd, _⟩ := ht.exists_digit
    obtain ⟨fuel, rfl⟩ := Nat.exists_eq_add_one_of_ne_zero (Nat.ne_zero_of_lt hfuel)
    exact skimNested_number hblanks (isDigit_iff.2 hd) hnumber
  | negative hs ht =>
    intro hr fuel hfuel
    obtain ⟨fuel, rfl⟩ := Nat.exists_eq_add_one_of_ne_zero (Nat.ne_zero_of_lt hfuel)
    simp only [skimNested, hs.skipBlanks_cons rfl, ht.skimNumber (hr.negative hs)]
  | text hs ht =>
    intro _ fuel hfuel
    obtain ⟨fuel, rfl⟩ := Nat.exists_eq_add_one_of_ne_zero (Nat.ne_zero_of_lt hfuel)
    simp only [skimNested, hs.skipBlanks_cons rfl, ht.skimString]
  | emptyList hs ht =>
    intro _ fuel hfuel
    have hlength := hs.length_le
    rw [List.length_cons] at hlength
    obtain ⟨fuel, rfl⟩ := Nat.exists_eq_add_of_le' (show 2 ≤ fuel by omega)
    rw [skimNested_list (hs.skipBlanks_cons rfl)]
    exact skimItems_nil (ht.skipBlanks_cons rfl)
  | list hs ht hu iht ihu =>
    intro _ fuel hfuel
    have hopen := hs.length_le
    have hitem := ht.length_lt
    rw [List.length_cons] at hopen
    obtain ⟨fuel, rfl⟩ := Nat.exists_eq_add_of_le' (show 2 ≤ fuel by omega)
    have hskim := iht (.ends hu.endsNumber_items) (fuel + 1) (by omega)
    rw [skimNested_list (hs.skipBlanks_cons rfl), skimItems_value (.first rfl) ht hskim]
    exact ihu (fuel + 1) fuel (by omega) (by omega)
  | emptyObject hs ht =>
    intro _ fuel hfuel
    have hlength := hs.length_le
    rw [List.length_cons] at hlength
    obtain ⟨fuel, rfl⟩ := Nat.exists_eq_add_of_le' (show 2 ≤ fuel by omega)
    rw [skimNested_object (hs.skipBlanks_cons rfl)]
    exact skimMembers_nil (ht.skipBlanks_cons rfl)
  | object hs ht hu hv ihu ihv =>
    intro _ fuel hfuel
    have hopen := hs.length_le
    have hkey := ht.free.length_le
    have hvalue := hu.length_lt
    rw [List.length_cons] at hopen
    obtain ⟨fuel, rfl⟩ := Nat.exists_eq_add_of_le' (show 2 ≤ fuel by omega)
    have hskim := ihu (.ends hv.endsNumber_members) (fuel + 1) (by omega)
    rw [skimNested_object (hs.skipBlanks_cons rfl), skimMembers_value (.first rfl) ht hskim]
    exact ihv (fuel + 1) fuel (by omega) (by omega)
  | lastItem hs =>
    intro fuel count _ hcount
    obtain ⟨count, rfl⟩ := Nat.exists_eq_add_one_of_ne_zero (Nat.ne_zero_of_lt hcount)
    exact skimItems_nil (hs.skipBlanks_cons rfl)
  | nextItem hs ht hu iht ihu =>
    intro fuel count hfuel hcount
    have hcomma := hs.length_le
    have hitem := ht.length_lt
    rw [List.length_cons] at hcomma
    obtain ⟨fuel, rfl⟩ := Nat.exists_eq_add_one_of_ne_zero (Nat.ne_zero_of_lt hfuel)
    obtain ⟨count, rfl⟩ := Nat.exists_eq_add_one_of_ne_zero (Nat.ne_zero_of_lt hcount)
    have hskim := iht (.ends hu.endsNumber_items) (fuel + 1) (by omega)
    rw [skimItems_value (.next (hs.skipBlanks_cons rfl) rfl) ht hskim]
    exact ihu (fuel + 1) count (by omega) (by omega)
  | lastMember hs =>
    intro fuel count _ hcount
    obtain ⟨count, rfl⟩ := Nat.exists_eq_add_one_of_ne_zero (Nat.ne_zero_of_lt hcount)
    exact skimMembers_nil (hs.skipBlanks_cons rfl)
  | nextMember hs ht hu hv ihu ihv =>
    intro fuel count hfuel hcount
    have hcomma := hs.length_le
    have hkey := ht.free.length_le
    have hvalue := hu.length_lt
    rw [List.length_cons] at hcomma
    obtain ⟨count, rfl⟩ := Nat.exists_eq_add_one_of_ne_zero (Nat.ne_zero_of_lt hcount)
    have hskim := ihu (.ends hv.endsNumber_members) fuel (by omega)
    rw [skimMembers_value (.next (hs.skipBlanks_cons rfl) rfl) ht hskim]
    exact ihv fuel count (by omega) (by omega)

theorem derives_of_skimValue (h : skimValue s = .ok r) : Derives .value s r := derives_of_skimNested h

theorem Derives.skimValue (h : Derives .value s r) (hr : Delimited s r) : skimValue s = .ok r :=
  skimmed_of_derives h hr _ (Nat.lt_succ_self _)

/-- There is one way to end a value. -/
theorem Derives.unique (h : Derives .value s r) (hr : Delimited s r) (h' : Derives .value s t) (ht : Delimited s t) :
    r = t :=
  Except.ok.inj ((h.skimValue hr).symm.trans (h'.skimValue ht))

theorem Blanks.endsNumber_nil (h : Blanks s []) : EndsNumber s := h.endsNumber fun _ hc => nomatch hc

/-- Where a list or an object begins a text, the text is a document if nothing but blanks follows it. -/
theorem isDocument_iff (h : Derives .value s r) (hr : Delimited s r) : IsDocument s ↔ Blanks r [] := by
  constructor
  · rintro ⟨t, ht, hblanks⟩
    rwa [h.unique hr ht (.ends hblanks.endsNumber_nil)]
  · exact fun hblanks => ⟨r, h, hblanks⟩

end Grammar

end Autodoc.Json
