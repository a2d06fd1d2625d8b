import Mathlib.Data.List.Basic
import Autodoc.Json.Printer
import Autodoc.Proofs.Written

namespace Autodoc.Json

/-- Values that are printed without loss, nested fewer than `depth` deep: numbers are whole and within the range that is
kept exact, and no object has a key twice. -/
inductive Value.Exact : Nat → Value → Prop
  | null {depth : Nat} : Exact (depth + 1) .null
  | bool {depth : Nat} {b : Bool} : Exact (depth + 1) (.bool b)
  | int {depth : Nat} {n : Int} (hlow : -0x8000000000000000 ≤ n) (hhigh : n ≤ 0xFFFFFFFFFFFFFFFF) :
      Exact (depth + 1) (.number (.int n))
  | text {depth : Nat} {x : String} : Exact (depth + 1) (.text x)
  | list {depth : Nat} {vs : List Value} (hvs : ∀ v ∈ vs, Exact (depth + 1) v) : Exact (depth + 2) (.list vs)
  | object {depth : Nat} {ms : List (String × Value)} (hkeys : (ms.map Prod.fst).Nodup)
      (hms : ∀ e ∈ ms, Exact (depth + 1) e.2) : Exact (depth + 2) (.object ms)

def EndsNumber (r : List Char) : Prop := ∀ c, r.head? = some c → isDigit c = false ∧ c ≠ '.' ∧ c ≠ 'e' ∧ c ≠ 'E'

variable {s t r : List Char}

theorem Value.Exact.distinctKeys {depth : Nat} {v : Value} (h : v.Exact depth) : v.DistinctKeys := by
  induction h with
  | null => exact .null
  | bool => exact .bool
  | int => exact .number
  | text => exact .text
  | list _ ih => exact .list ih
  | object hkeys _ ih => exact .object hkeys ih

theorem scanUnit_control {c : Char} (hc : c.toNat < 0x20) :
    scanUnit (Decimal.padLeft 4 (Text.hex c.toNat) ++ r) = .ok (c.toNat, r) := by
  have hdigits : ∀ n < 0x20, (Decimal.padLeft 4 (Text.hex n)).length = 4 ∧
      hexDigits? (Decimal.padLeft 4 (Text.hex n)) = some n := by decide
  obtain ⟨hlength, hnumber⟩ := hdigits c.toNat hc
  generalize Decimal.padLeft 4 (Text.hex c.toNat) = digits at hlength hnumber ⊢
  match digits, hlength with
  | [_, _, _, _], _ => simp only [List.cons_append, List.nil_append, scanUnit, hnumber]

theorem scanEscape_control {c : Char} (hc : c.toNat < 0x20) :
    scanEscape ('u' :: (Decimal.padLeft 4 (Text.hex c.toNat) ++ r)) = .ok (c, r) := by
  have hlow : isLowSurrogate c.toNat = false := by
    simp only [isLowSurrogate, Bool.and_eq_false_iff, decide_eq_false_iff_not]
    omega
  have hhigh : isHighSurrogate c.toNat = false := by
    simp only [isHighSurrogate, Bool.and_eq_false_iff, decide_eq_false_iff_not]
    omega
  simp only [scanEscape, scanUnit_control hc, hlow, hhigh, Bool.false_eq_true, if_false, Char.ofNat_toNat]

theorem scanString_escape {c : Char} {acc : List Char} (h : scanEscape s = .ok (c, r)) :
    scanString acc ('\\' :: s) = scanString (c :: acc) r := by
  rw [scanString]
  split
  next he => cases he.symm.trans h
  next he =>
    cases he.symm.trans h
    rfl

theorem scanString_escapeChar (c : Char) (acc s : List Char) :
    scanString acc (escapeChar c ++ s) = scanString (c :: acc) s := by
  unfold escapeChar
  split
  case h_8 hquote hslash _ _ _ _ _ =>
    split
    next hc =>
      rw [List.append_assoc]
      exact scanString_escape (scanEscape_control hc)
    next hc =>
      rw [List.singleton_append, scanString, if_neg hc]
      · exact hquote
      · exact hslash
  all_goals exact scanString_escape rfl

theorem scanString_printed (cs acc : List Char) :
    scanString acc (cs.flatMap escapeChar ++ '"' :: r) = .ok (String.ofList (acc.reverse ++ cs), r) := by
  induction cs generalizing acc with
  | nil => rw [List.flatMap_nil, List.nil_append, scanString, List.append_nil]
  | cons c cs ih =>
    rw [List.flatMap_cons, List.append_assoc, scanString_escapeChar, ih, List.reverse_cons, List.append_assoc,
      List.singleton_append]

theorem scanString_printText (x : String) : scanString [] ((printText x).tail ++ r) = .ok (x, r) := by
  rw [printText, List.tail_cons, List.append_assoc, List.singleton_append, scanString_printed, List.reverse_nil,
    List.nil_append, String.ofList_toList]

theorem isDigit_iff {c : Char} : isDigit c = true ↔ c.isDigit = true := by
  simp only [isDigit, Char.isDigit, Bool.and_eq_true, decide_eq_true_eq, ge_iff_le]
  rfl

theorem isDigit_of_mem_decimal {n : Nat} {c : Char} (hc : c ∈ Decimal.decimal n) : isDigit c = true :=
  isDigit_iff.2 (Nat.isDigit_of_mem_toDigits (by decide) (by decide) hc)

theorem head?_decimal_ne {n : Nat} (hn : n ≠ 0) : (Decimal.decimal n).head? ≠ some '0' := by
  induction n using Nat.strongRecOn with
  | ind n ih =>
    have hdigit : ∀ n < 10, n ≠ 0 → Nat.digitChar n ≠ '0' := by decide
    by_cases h : n < 10
    · rw [Decimal.decimal, Nat.toDigits_of_lt_base h, List.head?_cons]
      exact fun he => hdigit n h hn (Option.some.inj he)
    · have hrest : n / 10 ≠ 0 := by omega
      have hhead := ih (n / 10) (by omega) hrest
      rw [Decimal.decimal] at hhead ⊢
      rw [Nat.toDigits_of_base_le (by decide) (by omega), List.head?_append_of_ne_nil _ Nat.toDigits_ne_nil]
      exact hhead

theorem decimal_zero : Decimal.decimal 0 = ['0'] := Nat.toDigits_zero 10

theorem le_ofDigitChars (ds : List Char) (n : Nat) : n ≤ Nat.ofDigitChars 10 ds n := by
  induction ds generalizing n with
  | nil => exact Nat.le_refl n
  | cons d ds ih =>
    rw [Nat.ofDigitChars_cons]
    have hle := ih (10 * n + (d.toNat - '0'.toNat))
    omega

theorem absorb_eq {sig : Nat} {ds : List Char} (h : Nat.ofDigitChars 10 ds sig ≤ 0xFFFFFFFFFFFFFFFF) :
    absorb sig ds = (Nat.ofDigitChars 10 ds sig, []) := by
  induction ds generalizing sig with
  | nil => rfl
  | cons d ds ih =>
    rw [Nat.ofDigitChars_cons, Nat.mul_comm] at h ⊢
    have hle := le_ofDigitChars ds (sig * 10 + (d.toNat - '0'.toNat))
    have hdigit : sig * 10 + digitValue d = sig * 10 + (d.toNat - '0'.toNat) := rfl
    rw [absorb, hdigit]
    exact (if_pos (hle.trans h)).trans (ih h)

theorem EndsNumber.not_digit (h : EndsNumber r) : r.head?.any isDigit = false := by
  cases r with
  | nil => rfl
  | cons c r => exact (h c rfl).1

theorem digitRun_append {ds : List Char} (hds : ∀ d ∈ ds, isDigit d = true) (hr : r.head?.any isDigit = false) :
    digitRun (ds ++ r) = (ds, r) := by
  have hstop : r.takeWhile isDigit = [] ∧ r.dropWhile isDigit = r := by
    cases r with
    | nil => exact ⟨rfl, rfl⟩
    | cons c r =>
      have hc : ¬ isDigit c = true := Bool.eq_false_iff.1 hr
      exact ⟨List.takeWhile_cons_of_neg hc, List.dropWhile_cons_of_neg hc⟩
  rw [digitRun, List.span_eq_takeWhile_dropWhile, List.takeWhile_append_of_pos hds,
    List.dropWhile_append_of_pos hds, hstop.1, hstop.2, List.append_nil]

theorem scanNumber_decimal {negative : Bool} {n : Nat} (hn : n ≤ 0xFFFFFFFFFFFFFFFF) (hr : EndsNumber r) :
    scanNumber negative (Decimal.decimal n ++ r) = .ok (wholeNumber negative n, r) := by
  have hrun : digitRun (Decimal.decimal n ++ r) = (Decimal.decimal n, r) :=
    digitRun_append (fun _ => isDigit_of_mem_decimal) hr.not_digit
  have habsorb : absorb 0 (Decimal.decimal n) = (n, []) := by
    have hvalue : Nat.ofDigitChars 10 (Decimal.decimal n) 0 = n := Nat.ofDigitChars_ten_toDigits
    rw [absorb_eq (by omega), hvalue]
  have hzero : ∀ c ds, Decimal.decimal n = c :: ds → ¬ (c = '0' ∧ ((ds ++ r).head?.any isDigit) = true) := by
    rintro c ds hds ⟨rfl, hany⟩
    by_cases hn : n = 0
    · subst hn
      rw [decimal_zero] at hds
      cases hds
      cases r with
      | nil => cases hany
      | cons c r => exact Bool.false_ne_true ((hr c rfl).1.symm.trans hany)
    · exact head?_decimal_ne hn (by rw [hds]; rfl)
  have hne : Decimal.decimal n ≠ [] := Nat.toDigits_ne_nil
  obtain ⟨c, ds, hds⟩ := List.exists_cons_of_ne_nil hne
  have hc : isDigit c = true := isDigit_of_mem_decimal (hds ▸ List.mem_cons_self)
  rw [hds] at hrun habsorb ⊢
  rw [List.cons_append] at hrun ⊢
  simp only [scanNumber, hc, Bool.not_true, Bool.false_eq_true, if_false, if_neg (hzero c ds hds), hrun, habsorb]
  -- what follows is not the rest of a number
  split
  next => exact absurd rfl (hr '.' rfl).2.1
  next => exact absurd rfl (hr 'e' rfl).2.2.1
  next => exact absurd rfl (hr 'E' rfl).2.2.2
  next => rfl

theorem endsNumber_cons {c : Char} (h : isDigit c = false ∧ c ≠ '.' ∧ c ≠ 'e' ∧ c ≠ 'E') : EndsNumber (c :: r) := by
  intro d hd
  cases hd
  exact h

theorem skipBlanks_of_not {c : Char} (hc : isBlank c = false) : skipBlanks (c :: s) = c :: s :=
  List.dropWhile_cons_of_neg (by rw [hc]; exact Bool.false_ne_true)

theorem not_blank_of_isDigit {c : Char} (hc : isDigit c = true) : isBlank c = false := by
  rw [← Bool.not_eq_true, isBlank]
  intro hblank
  simp only [Bool.or_eq_true, decide_eq_true_eq] at hblank
  rcases hblank with ((rfl | rfl) | rfl) | rfl <;> cases hc

theorem Value.Exact.exists_print {depth : Nat} {v : Value} (h : v.Exact depth) :
    ∃ c t, printValue v = c :: t ∧ isBlank c = false ∧ c ≠ ']' := by
  cases h with
  | null => exact ⟨_, _, rfl, rfl, by decide⟩
  | @bool _ b => cases b <;> exact ⟨_, _, rfl, rfl, by decide⟩
  | @int _ n =>
    rw [printValue, printNumber, printInt]
    split
    · exact ⟨_, _, rfl, rfl, by decide⟩
    · have hne : Decimal.decimal n.natAbs ≠ [] := Nat.toDigits_ne_nil
      obtain ⟨c, ds, hds⟩ := List.exists_cons_of_ne_nil hne
      have hc : isDigit c = true := isDigit_of_mem_decimal (hds ▸ List.mem_cons_self)
      refine ⟨c, ds, hds, not_blank_of_isDigit hc, ?_⟩
      rintro rfl
      cases hc
  | text => exact ⟨_, _, rfl, rfl, by decide⟩
  | @list _ vs => cases vs <;> exact ⟨_, _, rfl, rfl, by decide⟩
  | @object _ ms =>
    cases ms with
    | nil => exact ⟨_, _, rfl, rfl, by decide⟩
    | cons m ms => exact ⟨_, _, rfl, rfl, by decide⟩

/-- Each value is read from its printed text, whatever follows that is not more of a number. -/
def Reprinted (Reads : List Char → Value → List Char → Prop) (v : Value) : Prop :=
  (∃ c t, printValue v = c :: t ∧ isBlank c = false ∧ c ≠ ']') ∧
    ∀ r, EndsNumber r → Reads (printValue v ++ r) v r

section Parts

variable {Reads : List Char → Value → List Char → Prop} {v : Value} {vs : List Value} {ms : List (String × Value)}

theorem endsNumber_printItems (vs : List Value) (r : List Char) : EndsNumber (printItems vs ++ r) := by
  cases vs with
  | nil => exact endsNumber_cons (by decide)
  | cons v vs => exact endsNumber_cons (by decide)

theorem endsNumber_printMembers (ms : List (String × Value)) (r : List Char) : EndsNumber (printMembers ms ++ r) := by
  cases ms with
  | nil => exact endsNumber_cons (by decide)
  | cons m ms => exact endsNumber_cons (by decide)

theorem items_printItems (h : ∀ v ∈ vs, Reprinted Reads v) (r : List Char) :
    Items Reads false (printItems vs ++ r) vs r := by
  induction vs with
  | nil => exact .nil rfl
  | cons v vs ih =>
    obtain ⟨⟨⟨c, t, hv, hblank, hend⟩, hreads⟩, hvs⟩ := List.forall_mem_cons.1 h
    have hread := hreads _ (endsNumber_printItems vs r)
    rw [printItems, List.cons_append, List.append_assoc]
    rw [hv, List.cons_append] at hread ⊢
    exact .cons (.next rfl (skipBlanks_of_not hblank)) hend hread (ih hvs)

theorem items_print (hv : Reprinted Reads v) (hvs : ∀ v ∈ vs, Reprinted Reads v) (r : List Char) :
    Items Reads true (printValue v ++ (printItems vs ++ r)) (v :: vs) r := by
  obtain ⟨⟨c, t, hv, hblank, hend⟩, hreads⟩ := hv
  have hread := hreads _ (endsNumber_printItems vs r)
  rw [hv, List.cons_append] at hread ⊢
  exact .cons (.first (skipBlanks_of_not hblank)) hend hread (items_printItems hvs r)

theorem printText_append (k : String) (s : List Char) : printText k ++ s = '"' :: ((printText k).tail ++ s) := rfl

theorem members_printMembers (h : ∀ e ∈ ms, Reprinted Reads e.2) (r : List Char) :
    Members Reads false (printMembers ms ++ r) ms r := by
  induction ms with
  | nil => exact .nil rfl
  | cons m ms ih =>
    obtain ⟨k, v⟩ := m
    obtain ⟨⟨_, hreads⟩, hms⟩ := List.forall_mem_cons.1 h
    have hread := hreads _ (endsNumber_printMembers ms r)
    rw [printMembers, List.cons_append, List.append_assoc, printText_append, List.cons_append, List.append_assoc]
    exact .cons (.next rfl rfl) (scanString_printText k) rfl hread (ih hms)

theorem members_print {k : String} (hv : Reprinted Reads v) (hms : ∀ e ∈ ms, Reprinted Reads e.2) (r : List Char) :
    Members Reads true (printText k ++ (':' :: (printValue v ++ (printMembers ms ++ r)))) ((k, v) :: ms) r := by
  have hread := hv.2 _ (endsNumber_printMembers ms r)
  rw [printText_append]
  exact .cons (.first rfl) (scanString_printText k) rfl hread (members_printMembers hms r)

end Parts

theorem scanWord_append (w r : List Char) : scanWord w (w ++ r) = .ok r := by
  induction w with
  | nil => rfl
  | cons c w ih => rw [List.cons_append, scanWord, if_pos rfl, ih]

theorem scanWritten_printInt {depth : Nat} {n : Int} (hlow : -0x8000000000000000 ≤ n) (hhigh : n ≤ 0xFFFFFFFFFFFFFFFF)
    (hr : EndsNumber r) : scanWritten (depth + 1) (printInt n ++ r) = .ok (.number (.int n), r) := by
  rw [printInt]
  split
  next hneg =>
    have hwhole : wholeNumber true n.natAbs = .int n := by
      rw [wholeNumber, if_pos rfl, if_pos (by omega)]
      congr 1
      omega
    rw [List.cons_append, scanWritten, scanValueBy, skipBlanks_of_not rfl]
    simp only [scanNumber_decimal (show n.natAbs ≤ 0xFFFFFFFFFFFFFFFF by omega) hr, hwhole]
    rfl
  next hpos =>
    have hne : Decimal.decimal n.natAbs ≠ [] := Nat.toDigits_ne_nil
    obtain ⟨c, ds, hds⟩ := List.exists_cons_of_ne_nil hne
    have hc : isDigit c = true := isDigit_of_mem_decimal (hds ▸ List.mem_cons_self)
    have hwhole : wholeNumber false n.natAbs = .int n := by
      rw [wholeNumber, if_neg Bool.false_ne_true]
      congr 1
      omega
    have hread : scanNumber false (Decimal.decimal n.natAbs ++ r) = .ok (wholeNumber false n.natAbs, r) :=
      scanNumber_decimal (by omega) hr
    rw [hwhole] at hread
    rw [hds, List.cons_append] at hread ⊢
    exact scanValueBy_number (skipBlanks_of_not (not_blank_of_isDigit hc)) hc hread

theorem scanWritten_printValue {depth : Nat} {v : Value} (h : v.Exact depth) (hr : EndsNumber r) :
    scanWritten depth (printValue v ++ r) = .ok (v, r) := by
  induction h generalizing r with
  | null => rfl
  | @bool _ b => cases b <;> rfl
  | int hlow hhigh => exact scanWritten_printInt hlow hhigh hr
  | @text _ x =>
    rw [printValue, printText_append, scanWritten, scanValueBy, skipBlanks_of_not rfl]
    simp only [scanString_printText]
    rfl
  | @list depth vs hvs ih =>
    have hprinted : ∀ v ∈ vs, Reprinted (fun t v u => scanWritten (depth + 1) t = .ok (v, u)) v :=
      fun v hv => ⟨(hvs v hv).exists_print, fun r hr => ih v hv hr⟩
    cases vs with
    | nil => rfl
    | cons v vs =>
      obtain ⟨hv, hvs⟩ := List.forall_mem_cons.1 hprinted
      have hitems := items_print hv hvs r
      have hlength := hitems.length fun _ _ _ => length_of_scanWritten
      rw [printValue, List.cons_append, List.append_assoc]
      exact scanValueBy_list rfl (Nat.succ_ne_zero _) hitems (by omega)
  | @object depth ms hkeys hms ih =>
    have hprinted : ∀ e ∈ ms, Reprinted (fun t v u => scanWritten (depth + 1) t = .ok (v, u)) e.2 :=
      fun e he => ⟨(hms e he).exists_print, fun r hr => ih e he hr⟩
    cases ms with
    | nil => rfl
    | cons m ms =>
      obtain ⟨k, v⟩ := m
      obtain ⟨hv, hms⟩ := List.forall_mem_cons.1 hprinted
      have hmembers := members_print (k := k) hv hms r
      have hlength := hmembers.length fun _ _ _ => length_of_scanWritten
      rw [printValue, List.cons_append, List.append_assoc, List.cons_append, List.append_assoc]
      refine (scanValueBy_object rfl (Nat.succ_ne_zero _) hmembers (by omega)).trans ?_
      rw [foldl_keepMember, List.nil_append]

theorem written_toText {depth : Nat} {v : Value} (h : v.Exact depth) : Written depth v.toText.toList v [] := by
  have hends : EndsNumber [] := fun _ hc => nomatch hc
  refine ⟨?_, h.distinctKeys⟩
  rw [Value.toText, String.toList_ofList, ← List.append_nil (printValue v)]
  exact scanWritten_printValue h hends

end Autodoc.Json
