import Autodoc.Proofs.Decoding
import Autodoc.Proofs.Locality

namespace Autodoc.Json

open Grammar

variable {s t u r : List Char} {first : Bool}

theorem not_blank_of_skipBlanks {c : Char} (hs : skipBlanks s = c :: t) : isBlank c = false := by
  have hstop := List.head?_dropWhile_not isBlank s
  rw [← skipBlanks, hs] at hstop
  exact hstop

theorem skipBlanks_free {c : Char} (hs : skipBlanks s = c :: t) : Free (fun s t => skipBlanks s = c :: t) s t :=
  ((blanks_of_skipBlanks hs).free_token [c]).imp fun _ _ _ h => h.skipBlanks_cons (not_blank_of_skipBlanks hs)

theorem scanWord_free {w : List Char} (h : scanWord w s = .ok r) : Free (fun s r => scanWord w s = .ok r) s r := by
  obtain rfl := eq_of_scanWord h
  refine (free_word w r).imp ?_
  rintro _ r _ rfl
  exact scanWord_append w r

theorem scanColon_free (h : scanColon s = .ok r) : Free (fun s r => scanColon s = .ok r) s r :=
  ((blanks_of_scanColon h).free_token [':']).imp fun _ _ _ => Blanks.scanColon

theorem skimValue_front (h : skimValue s = .ok r) : Front EndsNumber (fun s r => skimValue s = .ok r) s r :=
  ((derives_of_skimValue h).free.mono fun _ _ => trivial).imp fun _ _ hr h => h.skimValue (.ends hr)

theorem Front.head {C : List Char → Prop} {R : List Char → List Char → Prop} {c : Char} (h : Front C R s r)
    (hs : skipBlanks s = c :: t) (hlength : r.length ≤ t.length) :
    Front C (fun s r => R s r ∧ ∃ t, skipBlanks s = c :: t) s r := by
  obtain ⟨p, rfl, hp⟩ := h
  suffices hhead : ∀ r', ∃ t, skipBlanks (p ++ r') = c :: t from ⟨p, rfl, fun r' hr' => ⟨hp r' hr', hhead r'⟩⟩
  clear hp
  induction p with
  | nil =>
    have hle := length_skipBlanks_le r
    rw [List.nil_append] at hs
    rw [hs, List.length_cons] at hle
    omega
  | cons d p ih =>
    intro r'
    rw [List.cons_append, skipBlanks] at hs ⊢
    by_cases hd : isBlank d = true
    · rw [List.dropWhile_cons_of_pos hd] at hs ⊢
      exact ih hs r'
    · rw [List.dropWhile_cons_of_neg hd] at hs ⊢
      cases hs
      exact ⟨_, rfl⟩

theorem text_of_scanString {acc : List Char} {x : String} (h : scanString acc s = .ok (x, r)) : Text s r :=
  text_of_skimString (skimString_of_scanString h)

theorem magnitude_of_scanNumber {negative : Bool} {n : Number} (h : scanNumber negative s = .ok (n, r)) :
    Magnitude s r :=
  magnitude_of_skimNumber (skimNumber_of_scanNumber h)

/-- A reading that takes a value off the front of a text, and takes it whatever follows that is not more of a number. -/
structure Takes (R : List Char → List Char → Prop) (s r : List Char) : Prop where
  derives : Derives .value s r
  front : EndsNumber r → Front EndsNumber R s r

theorem Takes.of_free {R : List Char → List Char → Prop} (h : Derives .value s r) (hR : Free R s r) : Takes R s r :=
  ⟨h, fun _ => hR.mono fun _ _ => trivial⟩

theorem Takes.imp {R R' : List Char → List Char → Prop} (h : Takes R s r) (himp : ∀ s r, R s r → R' s r) :
    Takes R' s r :=
  ⟨h.derives, fun hr => (h.front hr).imp fun s r _ => himp s r⟩

theorem scanText_eq_ok_iff {expected : Expected} {x : String} :
    scanText expected s = .ok (x, r) ↔ ∃ t, skipBlanks s = '"' :: t ∧ scanString [] t = .ok (x, r) := by
  unfold scanText
  split
  next hs =>
    constructor
    · exact fun h => ⟨_, hs, h⟩
    · rintro ⟨t, ht, h⟩
      cases hs.symm.trans ht
      exact h
  next hne =>
    constructor
    · intro h
      cases h
    · rintro ⟨t, ht, _⟩
      exact absurd ht (hne t)

theorem scanText_free {expected : Expected} {x : String} (h : scanText expected s = .ok (x, r)) :
    Free (fun s r => scanText expected s = .ok (x, r)) s r := by
  obtain ⟨t, hs, ht⟩ := scanText_eq_ok_iff.1 h
  exact ((skipBlanks_free hs).seq (scanString_free ht)).imp fun _ _ _ => scanText_eq_ok_iff.2

theorem scanText_takes {expected : Expected} {x : String} (h : scanText expected s = .ok (x, r)) :
    Takes (fun s r => scanText expected s = .ok (x, r)) s r := by
  refine .of_free ?_ (scanText_free h)
  obtain ⟨t, hs, ht⟩ := scanText_eq_ok_iff.1 h
  exact .text (blanks_of_skipBlanks hs) (text_of_scanString ht)

theorem blanks_of_word {c : Char} {w : List Char} (hs : skipBlanks s = c :: t) (ht : scanWord w t = .ok r) :
    Blanks s (c :: w ++ r) := by
  obtain rfl := eq_of_scanWord ht
  exact blanks_of_skipBlanks hs

theorem word_free {c : Char} {w : List Char} (hs : skipBlanks s = c :: t) (ht : scanWord w t = .ok r) :
    Free (fun s r => ∃ t, skipBlanks s = c :: t ∧ scanWord w t = .ok r) s r :=
  (skipBlanks_free hs).seq (scanWord_free ht)

theorem scanBool_takes {b : Bool} (h : scanBool s = .ok (b, r)) : Takes (fun s r => scanBool s = .ok (b, r)) s r := by
  unfold scanBool at h
  split at h
  next hs =>
    obtain ⟨_, ht, he⟩ := exists_of_map_eq_ok h
    cases he
    refine .of_free (.yes (blanks_of_word hs ht)) ((word_free hs ht).imp ?_)
    rintro s r _ ⟨t, hs, ht⟩
    simp only [scanBool, hs, ht]
    rfl
  next hs =>
    obtain ⟨_, ht, he⟩ := exists_of_map_eq_ok h
    cases he
    refine .of_free (.no (blanks_of_word hs ht)) ((word_free hs ht).imp ?_)
    rintro s r _ ⟨t, hs, ht⟩
    simp only [scanBool, hs, ht]
    rfl
  next => cases h

theorem wordOfNumber_anywhere {n : Number} {x : UInt32} (h : wordOfNumber n s = .ok (x, r)) :
    s = r ∧ ∀ s', wordOfNumber n s' = .ok (x, s') := by
  cases n with
  | float => cases h
  | int n =>
    unfold wordOfNumber at h ⊢
    dsimp only at h ⊢
    split at h
    next hn =>
      cases h
      exact ⟨rfl, fun _ => if_pos hn⟩
    next => cases h

theorem scanWord32_number {d : Char} {n : Number} (hs : skipBlanks s = d :: t) (hd : isDigit d = true)
    (hn : scanNumber false (d :: t) = .ok (n, r)) : scanWord32 s = wordOfNumber n r := by
  unfold scanWord32
  dsimp only
  split
  next heq =>
    cases heq.symm.trans hs
    cases hd
  next heq =>
    cases heq.symm.trans hs
    simp only [if_pos hd, hn]
  next heq => cases heq.symm.trans hs

theorem scanWord32_takes {x : UInt32} (h : scanWord32 s = .ok (x, r)) :
    Takes (fun s r => scanWord32 s = .ok (x, r)) s r := by
  unfold scanWord32 at h
  dsimp only at h
  split at h
  next hs =>
    split at h
    next => cases h
    next hn =>
      obtain ⟨rfl, hword⟩ := wordOfNumber_anywhere h
      refine ⟨.negative (blanks_of_skipBlanks hs) (magnitude_of_scanNumber hn), fun hr => ?_⟩
      refine (Front.seq (skipBlanks_free hs) (scanNumber_front hn hr) fun _ _ _ _ => trivial).imp ?_
      rintro s r _ ⟨t, hs, ht⟩
      simp only [scanWord32, hs, ht, hword]
  next c t _ hs =>
    split at h
    next hc =>
      split at h
      next => cases h
      next hn =>
        obtain ⟨rfl, hword⟩ := wordOfNumber_anywhere h
        refine ⟨.number (blanks_of_skipBlanks hs) (magnitude_of_scanNumber hn), fun hr => ?_⟩
        have hblanks := (blanks_of_skipBlanks hs).free
        refine (Front.seq hblanks (scanNumber_front hn hr) fun _ _ _ _ => trivial).imp ?_
        rintro s r _ ⟨t, hs, ht⟩
        obtain ⟨d, t, rfl, hd, _⟩ := exists_of_scanNumber ht
        rw [scanWord32_number (hs.skipBlanks_cons (not_blank_of_isDigit hd)) hd ht, hword]
    next => cases h
  next => cases h

theorem ok_of_mapError {x : Except ε α} {f : ε → ε'} {a : α} (h : x.mapError f = .ok a) : x = .ok a := by
  cases x with
  | error e => cases h
  | ok => exact congrArg Except.ok (Except.ok.inj h)

theorem scanNull_eq_ok_iff : scanNull s = .ok r ↔ ∃ t, skipBlanks s = 'n' :: t ∧ scanWord "ull".toList t = .ok r := by
  unfold scanNull
  split
  next hs =>
    constructor
    · exact fun h => ⟨_, hs, h⟩
    · rintro ⟨t, ht, h⟩
      cases hs.symm.trans ht
      exact h
  next hne =>
    constructor
    · intro h
      cases h
    · rintro ⟨t, ht, _⟩
      exact absurd ht (hne t)

section Choices

variable {variants : List (String × α)} {x : α}

theorem scanVariant_eq_ok_iff {name : String} : scanVariant variants s = .ok ((name, x), r) ↔
    scanText .variant s = .ok (name, r) ∧ variants.lookup name = some x := by
  unfold scanVariant
  cases scanText .variant s with
  | error e => simp only [reduceCtorEq, false_and]
  | ok found =>
    obtain ⟨name', r'⟩ := found
    dsimp only
    constructor
    · intro h
      split at h
      next hlookup =>
        cases h
        exact ⟨rfl, hlookup⟩
      next => cases h
    · rintro ⟨hname, hlookup⟩
      cases hname
      rw [hlookup]

theorem scanVariant_free {name : String} (h : scanVariant variants s = .ok ((name, x), r)) :
    Free (fun s r => scanVariant variants s = .ok ((name, x), r)) s r := by
  obtain ⟨htext, hlookup⟩ := scanVariant_eq_ok_iff.1 h
  exact (scanText_free htext).imp fun _ _ _ htext => scanVariant_eq_ok_iff.2 ⟨htext, hlookup⟩

theorem scanVariant_quote {name : String} (hs : scanString [] s = .ok (name, r)) (hx : variants.lookup name = some x) :
    scanVariant variants ('"' :: s) = .ok ((name, x), r) :=
  scanVariant_eq_ok_iff.2 ⟨scanText_eq_ok_iff.2 ⟨s, rfl, hs⟩, hx⟩

theorem object_takes {name : String} {t v w : List Char} (hs : skipBlanks s = '{' :: t)
    (hvariant : scanVariant variants t = .ok ((name, x), u)) (hcolon : scanColon u = .ok v)
    (hnull : scanNull v = .ok w) (hend : skipBlanks w = '}' :: r) :
    Takes (fun s r => scanChoice variants s = .ok (x, r)) s r := by
  obtain ⟨t', hquote, hname⟩ := scanText_eq_ok_iff.1 (scanVariant_eq_ok_iff.1 hvariant).1
  obtain ⟨v', hn, hword⟩ := scanNull_eq_ok_iff.1 hnull
  have hkey : Key t v := .mk (blanks_of_skipBlanks hquote) (text_of_scanString hname) (blanks_of_scanColon hcolon)
  have hvalue : Derives .value v w := .null (blanks_of_word hn hword)
  have hrest : Derives .members w r := .lastMember (blanks_of_skipBlanks hend)
  refine .of_free (.object (blanks_of_skipBlanks hs) hkey hvalue hrest) ?_
  have hname := (skipBlanks_free hs).seq (scanVariant_free hvariant)
  refine (((hname.seq (scanColon_free hcolon)).seq (word_free hn hword)).seq (skipBlanks_free hend)).imp ?_
  rintro s r _ ⟨w, ⟨v, ⟨u, ⟨t, hs, hvariant⟩, hcolon⟩, hnull⟩, hend⟩
  simp only [scanChoice, hs, hvariant, hcolon, scanNull_eq_ok_iff.2 hnull, Except.mapError, hend]

theorem scanChoice_takes (h : scanChoice variants s = .ok (x, r)) :
    Takes (fun s r => scanChoice variants s = .ok (x, r)) s r := by
  unfold scanChoice at h
  split at h
  next => cases h
  next t hs =>
    obtain ⟨⟨⟨name, _⟩, _⟩, hvariant, he⟩ := exists_of_map_eq_ok h
    cases he
    obtain ⟨htext, hx⟩ := scanVariant_eq_ok_iff.1 hvariant
    obtain ⟨_, hquote, hname⟩ := scanText_eq_ok_iff.1 htext
    cases hquote
    have hfree := (skipBlanks_free hs).seq (scanString_free hname)
    refine .of_free (.text (blanks_of_skipBlanks hs) (text_of_scanString hname)) (hfree.imp ?_)
    rintro s r _ ⟨t, hs, ht⟩
    simp only [scanChoice, hs, scanVariant_quote ht hx]
    rfl
  next hs =>
    split at h
    next => cases h
    next hvariant =>
      split at h
      next => cases h
      next hcolon =>
        split at h
        next => cases h
        next hnull =>
          split at h
          next => cases h
          next hend =>
            cases h
            exact object_takes hs hvariant hcolon (ok_of_mapError hnull) hend
          next => cases h
  next => cases h

end Choices

def Starts (first : Bool) (s t : List Char) : Prop := if first then s = t else skipBlanks s = ',' :: t

theorem begins_iff : Begins first s t ↔ ∃ u, Starts first s u ∧ skipBlanks u = t := by
  constructor
  · intro h
    cases h with
    | first ht => exact ⟨s, rfl, ht⟩
    | next hs ht => exact ⟨_, hs, ht⟩
  · rintro ⟨u, hs, ht⟩
    cases first with
    | true =>
      cases hs
      exact .first ht
    | false => exact .next hs ht

theorem Starts.free (h : Starts first s t) : Free (Starts first) s t := by
  cases first with
  | true =>
    cases h
    exact .refl (fun _ => rfl) s
  | false => exact (skipBlanks_free h).imp fun _ _ _ hs => hs

theorem EndsNumber.of_skipBlanks {c : Char} (hs : skipBlanks s = c :: t)
    (hc : isDigit c = false ∧ c ≠ '.' ∧ c ≠ 'e' ∧ c ≠ 'E') : EndsNumber s :=
  (blanks_of_skipBlanks hs).endsNumber (endsNumber_cons hc)

section Lists

variable {Reads : List Char → α → List Char → Prop} {xs : List α}

theorem Items.endsNumber (h : Items Reads false s xs r) : EndsNumber s := by
  generalize hfirst : false = first at h
  cases h with
  | nil hs => exact .of_skipBlanks hs (by decide)
  | cons ht =>
    subst hfirst
    cases ht with
    | next hs => exact .of_skipBlanks hs (by decide)

theorem Items.derives_rest (hread : ∀ t x u, Reads t x u → Derives .value t u) (h : Items Reads false s xs r) :
    Derives .items s r := by
  generalize hfirst : false = first at h
  induction h with
  | nil hs => exact .lastItem (blanks_of_skipBlanks hs)
  | cons ht _ hx _ ih =>
    subst hfirst
    cases ht with
    | next hs ht =>
      have hitem := (hread _ _ _ hx).blanks (blanks_of_skipBlanks ht)
      exact .nextItem (blanks_of_skipBlanks hs) hitem (ih rfl)

theorem Items.derives (hread : ∀ t x u, Reads t x u → Derives .value t u) (hs : skipBlanks s = '[' :: t)
    (h : Items Reads true t xs r) : Derives .value s r := by
  have hopen := blanks_of_skipBlanks hs
  cases h with
  | nil ht => exact .emptyList hopen (blanks_of_skipBlanks ht)
  | cons ht _ hx hxs =>
    cases ht with
    | first ht => exact .list hopen ((hread _ _ _ hx).blanks (blanks_of_skipBlanks ht)) (hxs.derives_rest hread)

theorem Items.free (hskip : ∀ t x u, Reads (skipBlanks t) x u ↔ Reads t x u)
    (hread : ∀ t x u, Reads t x u → Takes (fun t u => Reads t x u) t u) (h : Items Reads first s xs r) :
    Free (fun s r => Items Reads first s xs r) s r := by
  induction h with
  | nil hs => exact (skipBlanks_free hs).imp fun _ _ _ => .nil
  | cons ht hc hx hxs ih =>
    obtain ⟨t', hstarts, hs⟩ := begins_iff.1 ht
    have hx := (hskip _ _ _).1 (hs ▸ hx)
    have htakes := hread _ _ _ hx
    obtain ⟨c', u', hs', _, hlength⟩ := htakes.derives.exists_skipBlanks
    cases hs.symm.trans hs'
    have hitem := (htakes.front hxs.endsNumber).head hs hlength
    have hall := Front.seq (Front.seq hstarts.free hitem fun _ _ _ _ => trivial) ih fun _ _ _ => Items.endsNumber
    refine hall.imp ?_
    rintro s r _ ⟨v, ⟨w, hstarts, hw, t, ht⟩, hxs⟩
    exact .cons (begins_iff.2 ⟨w, hstarts, ht⟩) hc (ht ▸ (hskip _ _ _).2 hw) hxs

end Lists

/-- The members of an object, up to and with its end, as they change a state. `Step` is what becomes of a member after
its key. -/
inductive Entries (Step : String → σ → List Char → σ → List Char → Prop) :
    Bool → σ → List Char → σ → List Char → Prop
  | nil {first : Bool} {x : σ} {s r : List Char} (hs : skipBlanks s = '}' :: r) : Entries Step first x s x r
  | cons {first : Bool} {k : String} {x y z : σ} {s t u v r : List Char} (ht : Begins first s ('"' :: t))
      (hk : scanString [] t = .ok (k, u)) (hstep : Step k x u y v) (hrest : Entries Step false y v z r) :
      Entries Step first x s z r

/-- A member after its key, read: a colon and a value, and it makes no difference what follows that is not more of a
number. -/
structure TakesMember (R : List Char → List Char → Prop) (s r : List Char) : Prop where
  derives : ∃ t, scanColon s = .ok t ∧ Derives .value t r
  front : EndsNumber r → Front EndsNumber R s r

namespace Entries

variable {Step : String → σ → List Char → σ → List Char → Prop} {x z : σ}

theorem endsNumber (h : Entries Step false x s z r) : EndsNumber s := by
  generalize hfirst : false = first at h
  cases h with
  | nil hs => exact .of_skipBlanks hs (by decide)
  | cons ht =>
    subst hfirst
    cases ht with
    | next hs => exact .of_skipBlanks hs (by decide)

theorem derives_key {k : String} {t u v : List Char} (hs : Blanks s ('"' :: t)) (hk : scanString [] t = .ok (k, u))
    (hv : scanColon u = .ok v) : Key s v :=
  .mk hs (text_of_scanString hk) (blanks_of_scanColon hv)

theorem derives_rest (hstep : ∀ k x s y r, Step k x s y r → TakesMember (fun s r => Step k x s y r) s r)
    (h : Entries Step false x s z r) : Derives .members s r := by
  generalize hfirst : false = first at h
  induction h with
  | nil hs => exact .lastMember (blanks_of_skipBlanks hs)
  | cons ht hk hx _ ih =>
    subst hfirst
    obtain ⟨v, hcolon, hvalue⟩ := (hstep _ _ _ _ _ hx).derives
    cases ht with
    | next hs ht =>
      exact .nextMember (blanks_of_skipBlanks hs) (derives_key (blanks_of_skipBlanks ht) hk hcolon) hvalue (ih rfl)

theorem derives (hstep : ∀ k x s y r, Step k x s y r → TakesMember (fun s r => Step k x s y r) s r)
    (hs : skipBlanks s = '{' :: t) (h : Entries Step true x t z r) : Derives .value s r := by
  have hopen := blanks_of_skipBlanks hs
  cases h with
  | nil ht => exact .emptyObject hopen (blanks_of_skipBlanks ht)
  | cons ht hk hx hrest =>
    obtain ⟨v, hcolon, hvalue⟩ := (hstep _ _ _ _ _ hx).derives
    cases ht with
    | first ht =>
      exact .object hopen (derives_key (blanks_of_skipBlanks ht) hk hcolon) hvalue (hrest.derives_rest hstep)

theorem free (hstep : ∀ k x s y r, Step k x s y r → TakesMember (fun s r => Step k x s y r) s r)
    (h : Entries Step first x s z r) : Free (fun s r => Entries Step first x s z r) s r := by
  induction h with
  | nil hs => exact (skipBlanks_free hs).imp fun _ _ _ => .nil
  | @cons first k x y z s t u v r ht hk hx hrest ih =>
    obtain ⟨t', hstarts, hs⟩ := begins_iff.1 ht
    have hkey := (hstarts.free.seq (skipBlanks_free hs)).seq (scanString_free hk)
    have hmember := Front.seq hkey ((hstep _ _ _ _ _ hx).front hrest.endsNumber) fun _ _ _ _ => trivial
    refine (Front.seq hmember ih fun _ _ _ => endsNumber).imp ?_
    rintro s r _ ⟨v, ⟨u, ⟨t, ⟨t', hstarts, hs⟩, hk⟩, hx⟩, hrest⟩
    exact .cons (begins_iff.2 ⟨t', hstarts, hs⟩) hk hx hrest

end Entries

theorem TakesMember.length_le {R : List Char → List Char → Prop} (h : TakesMember R s r) : r.length ≤ s.length := by
  obtain ⟨t, hcolon, hvalue⟩ := h.derives
  have hlength := length_of_scanColon hcolon
  have hlength' := hvalue.length_lt
  omega

section Loops

variable {x z : σ} {fuel : Nat}

theorem entries_of_scanMembers {read : String → σ → List Char → Scan σ}
    (h : scanMembers read fuel first x s = .ok (z, u)) :
    ∃ r, u = '}' :: r ∧ Entries (fun k x s y r => read k x s = .ok (y, r)) first x s z r := by
  induction fuel generalizing first x s with
  | zero => cases h
  | succ fuel ih =>
    rcases begins_of_scanMembers h with ⟨r, hs⟩ | ⟨k, t, w, ht, hk⟩
    · rw [scanMembers_nil hs] at h
      cases h
      exact ⟨r, rfl, .nil hs⟩
    · rw [scanMembers_cons ht hk] at h
      split at h
      · cases h
      rename_i hstep
      obtain ⟨r, rfl, hrest⟩ := ih h
      exact ⟨r, rfl, .cons ht hk hstep hrest⟩

theorem scanMembers_of_entries {read : String → σ → List Char → Scan σ}
    (hlength : ∀ k x s y r, read k x s = .ok (y, r) → r.length ≤ s.length)
    (h : Entries (fun k x s y r => read k x s = .ok (y, r)) first x s z r) (hfuel : s.length < fuel) :
    scanMembers read fuel first x s = .ok (z, '}' :: r) := by
  induction h generalizing fuel with
  | nil hs =>
    obtain ⟨fuel, rfl⟩ := Nat.exists_eq_add_one_of_ne_zero (Nat.ne_zero_of_lt hfuel)
    exact scanMembers_nil hs
  | cons ht hk hstep _ ih =>
    obtain ⟨fuel, rfl⟩ := Nat.exists_eq_add_one_of_ne_zero (Nat.ne_zero_of_lt hfuel)
    have hle := ht.length_le
    have hkey := length_of_skimString (skimString_of_scanString hk)
    have hmember := hlength _ _ _ _ _ hstep
    simp only [List.length_cons] at hle
    rw [scanMembers_cons ht hk, hstep]
    exact ih (by omega)

end Loops

section Records

variable {read : String → Option (List Char → Scan (α → α))} {p q : Partial α} {fuel : Nat}

theorem scanMember_eq_ok_iff {k : String} : scanMember read k p s = .ok (.ok q, r) ↔
    ∃ t, scanColon s = .ok t ∧ ((read k = none ∧ q = p ∧ skimValue t = .ok r) ∨
      ∃ f set, read k = some f ∧ p.given.contains k = false ∧ q = ⟨set p.value, k :: p.given⟩ ∧
        f t = .ok (set, r)) := by
  unfold scanMember
  cases hread : read k with
  | none =>
    dsimp only
    constructor
    · intro h
      split at h
      next => cases h
      next hcolon =>
        split at h
        next => cases h
        next hskim =>
          cases h
          exact ⟨_, hcolon, .inl ⟨rfl, rfl, hskim⟩⟩
    · rintro ⟨t, hcolon, ⟨_, rfl, hskim⟩ | ⟨f, set, hf, _⟩⟩
      · simp only [hcolon, hskim]
      · cases hf
  | some f =>
    dsimp only
    constructor
    · intro h
      split at h
      next => cases h
      next hgiven =>
        split at h
        next => cases h
        next hcolon =>
          obtain ⟨⟨set, _⟩, hx, he⟩ := exists_of_map_eq_ok h
          cases he
          exact ⟨_, hcolon, .inr ⟨f, set, rfl, Bool.eq_false_iff.2 hgiven, rfl, ok_of_mapError hx⟩⟩
    · rintro ⟨t, hcolon, ⟨hf, _⟩ | ⟨f, set, hf, hgiven, rfl, hx⟩⟩
      · cases hf
      · cases hf
        simp only [hgiven, Bool.false_eq_true, if_false, hcolon, hx]
        rfl

theorem scanMember_takes {k : String}
    (hread : ∀ f, read k = some f → ∀ s set r, f s = .ok (set, r) → Takes (fun s r => f s = .ok (set, r)) s r)
    (h : scanMember read k p s = .ok (.ok q, r)) :
    TakesMember (fun s r => scanMember read k p s = .ok (.ok q, r)) s r := by
  obtain ⟨t, hcolon, ⟨hk, hq, hskim⟩ | ⟨f, set, hk, hgiven, hq, hx⟩⟩ := scanMember_eq_ok_iff.1 h
  · refine ⟨⟨t, hcolon, derives_of_skimValue hskim⟩, fun _ => ?_⟩
    refine (Front.seq (scanColon_free hcolon) (skimValue_front hskim) fun _ _ _ _ => trivial).imp ?_
    rintro s r _ ⟨t, hcolon, hskim⟩
    exact scanMember_eq_ok_iff.2 ⟨t, hcolon, .inl ⟨hk, hq, hskim⟩⟩
  · have htakes := hread f hk _ _ _ hx
    refine ⟨⟨t, hcolon, htakes.derives⟩, fun hr => ?_⟩
    refine (Front.seq (scanColon_free hcolon) (htakes.front hr) fun _ _ _ _ => trivial).imp ?_
    rintro s r _ ⟨t, hcolon, hx⟩
    exact scanMember_eq_ok_iff.2 ⟨t, hcolon, .inr ⟨f, set, hk, hgiven, hq, hx⟩⟩

theorem begins_of_scanRecord {y : Except Problem (Partial α)} (h : scanRecord read (fuel + 1) first p s = .ok (y, u)) :
    (∃ r, skipBlanks s = '}' :: r) ∨ ∃ k t w, Begins first s ('"' :: t) ∧ scanString [] t = .ok (k, w) := by
  rw [scanRecord] at h
  cases hkey : scanKey first s with
  | error e =>
    rw [hkey] at h
    cases h
  | ok found =>
    rcases begins_of_scanKey hkey with ⟨r, hs, _, _⟩ | ⟨k, t, ht, hk, _⟩
    · exact .inl ⟨r, hs⟩
    · exact .inr ⟨k, t, _, ht, hk⟩

theorem entries_of_scanRecord (h : scanRecord read fuel first p s = .ok (.ok q, u)) :
    ∃ r, u = '}' :: r ∧ Entries (fun k p s q r => scanMember read k p s = .ok (.ok q, r)) first p s q r := by
  induction fuel generalizing first p s with
  | zero => cases h
  | succ fuel ih =>
    rcases begins_of_scanRecord h with ⟨r, hs⟩ | ⟨k, t, w, ht, hk⟩
    · rw [scanRecord_nil hs] at h
      cases h
      exact ⟨r, rfl, .nil hs⟩
    · rw [scanRecord_cons ht hk] at h
      split at h
      · cases h
      · cases h
      rename_i hstep
      obtain ⟨r, rfl, hrest⟩ := ih h
      exact ⟨r, rfl, .cons ht hk hstep hrest⟩

theorem scanRecord_of_entries
    (hlength : ∀ k p s q r, scanMember read k p s = .ok (.ok q, r) → r.length ≤ s.length)
    (h : Entries (fun k p s q r => scanMember read k p s = .ok (.ok q, r)) first p s q r) (hfuel : s.length < fuel) :
    scanRecord read fuel first p s = .ok (.ok q, '}' :: r) := by
  induction h generalizing fuel with
  | nil hs =>
    obtain ⟨fuel, rfl⟩ := Nat.exists_eq_add_one_of_ne_zero (Nat.ne_zero_of_lt hfuel)
    exact scanRecord_nil hs
  | cons ht hk hstep _ ih =>
    obtain ⟨fuel, rfl⟩ := Nat.exists_eq_add_one_of_ne_zero (Nat.ne_zero_of_lt hfuel)
    have hle := ht.length_le
    have hkey := length_of_skimString (skimString_of_scanString hk)
    have hmember := hlength _ _ _ _ _ hstep
    simp only [List.length_cons] at hle
    rw [scanRecord_cons ht hk, hstep]
    exact ih (by omega)

end Records

theorem scanEntry_eq_ok_iff {read : List Char → Scan α} {k : String} {table table' : Table α} :
    scanEntry read k table s = .ok (table', r) ↔
      ∃ t, scanColon s = .ok t ∧ ∃ x, read t = .ok (x, r) ∧ table' = table.insert k x := by
  unfold scanEntry
  constructor
  · intro h
    split at h
    next => cases h
    next hcolon =>
      obtain ⟨⟨x, _⟩, hx, he⟩ := exists_of_map_eq_ok h
      cases he
      exact ⟨_, hcolon, x, ok_of_mapError hx, rfl⟩
  · rintro ⟨t, hcolon, x, hx, rfl⟩
    simp only [hcolon, hx]
    rfl

theorem scanEntry_takes {read : List Char → Scan α}
    (hread : ∀ s x r, read s = .ok (x, r) → Takes (fun s r => read s = .ok (x, r)) s r) {k : String}
    {table table' : Table α} (h : scanEntry read k table s = .ok (table', r)) :
    TakesMember (fun s r => scanEntry read k table s = .ok (table', r)) s r := by
  obtain ⟨t, hcolon, x, hx, rfl⟩ := scanEntry_eq_ok_iff.1 h
  have htakes := hread _ _ _ hx
  refine ⟨⟨t, hcolon, htakes.derives⟩, fun hr => ?_⟩
  refine (Front.seq (scanColon_free hcolon) (htakes.front hr) fun _ _ _ _ => trivial).imp ?_
  rintro s r _ ⟨t, hcolon, hx⟩
  exact scanEntry_eq_ok_iff.2 ⟨t, hcolon, x, hx, rfl⟩

theorem Schema.ofText_skipBlanks (schema : Schema α) (s : List Char) :
    schema.ofText (skipBlanks s) = schema.ofText s := by
  cases schema with
  | text => rw [Schema.ofText, Schema.ofText, scanText, scanText, skipBlanks_skipBlanks]
  | bool => rw [Schema.ofText, Schema.ofText, scanBool, scanBool, skipBlanks_skipBlanks]
  | word => rw [Schema.ofText, Schema.ofText, scanWord32, scanWord32, skipBlanks_skipBlanks]
  | nullable => rw [Schema.ofText, Schema.ofText, skipBlanks_skipBlanks]
  | list => rw [Schema.ofText, Schema.ofText, skipBlanks_skipBlanks]
  | table => rw [Schema.ofText, Schema.ofText, skipBlanks_skipBlanks]
  | choice => rw [Schema.ofText, Schema.ofText, scanChoice, scanChoice, skipBlanks_skipBlanks]
  | record => rw [Schema.ofText, Schema.ofText, skipBlanks_skipBlanks]

/-- What a schema decodes, it takes off the front of the text. -/
def TakesValues (schema : Schema α) : Prop :=
  ∀ s x r, schema.ofText s = .ok (x, r) → Takes (fun s r => schema.ofText s = .ok (x, r)) s r

section Schemas

variable {schema : Schema α}

theorem nullable_takes (hschema : TakesValues schema) : TakesValues schema.nullable := by
  intro s x r h
  rw [Schema.ofText] at h
  split at h
  next hs =>
    obtain ⟨_, ht, he⟩ := exists_of_map_eq_ok h
    cases he
    refine .of_free (.null (blanks_of_word hs ht)) ((word_free hs ht).imp ?_)
    rintro s r _ ⟨t, hs, ht⟩
    simp only [Schema.ofText, hs, ht]
    rfl
  next hne =>
    obtain ⟨⟨x, _⟩, hx, he⟩ := exists_of_map_eq_ok h
    cases he
    rw [schema.ofText_skipBlanks] at hx
    have htakes := hschema _ _ _ hx
    obtain ⟨c, t, hs, _, hlength⟩ := htakes.derives.exists_skipBlanks
    refine ⟨htakes.derives, fun hr => ((htakes.front hr).head hs hlength).imp ?_⟩
    rintro s' r _ ⟨hx, t', ht'⟩
    rw [Schema.ofText]
    split
    next heq =>
      cases ht'.symm.trans heq
      exact absurd hs (hne t)
    next =>
      rw [schema.ofText_skipBlanks, hx]
      rfl

theorem list_takes (hschema : TakesValues schema) : TakesValues schema.list := by
  intro s xs r h
  have hread : ∀ t x u, schema.ofText t = .ok (x, u) → Derives .value t u := fun t x u hx => (hschema t x u hx).derives
  rw [Schema.ofText] at h
  split at h
  next t hs =>
    obtain ⟨⟨xs, _⟩, hxs, he⟩ := exists_of_map_eq_ok h
    cases he
    obtain ⟨r, rfl, hitems⟩ := items_of_scanItems hxs fun _ _ _ _ hx => ok_of_mapError hx
    have hskip : ∀ t x u, schema.ofText (skipBlanks t) = .ok (x, u) ↔ schema.ofText t = .ok (x, u) := by
      intro t x u
      rw [schema.ofText_skipBlanks]
    refine .of_free (hitems.derives hread hs) (((skipBlanks_free hs).seq (hitems.free hskip hschema)).imp ?_)
    rintro s r _ ⟨t, hs, hitems⟩
    have hlength := hitems.length fun t x u hx => (hread t x u hx).length_lt
    have hscan : scanItems (fun i s => Scan.under (.index i) (schema.ofText s)) (t.length + 1) 0 t =
        .ok (xs, ']' :: r) := by
      refine scanItems_of_items hitems (fun i t x u hx => ?_) rfl (by omega)
      rw [hx]
      rfl
    simp only [Schema.ofText, hs, hscan]
    rfl
  next => cases h

theorem table_takes (hschema : TakesValues schema) : TakesValues schema.table := by
  intro s table r h
  have hstep : ∀ k (x : Table α) s y r, scanEntry schema.ofText k x s = .ok (y, r) →
      TakesMember (fun s r => scanEntry schema.ofText k x s = .ok (y, r)) s r :=
    fun _ _ _ _ _ => scanEntry_takes hschema
  rw [Schema.ofText] at h
  split at h
  next t hs =>
    obtain ⟨⟨table, _⟩, htable, he⟩ := exists_of_map_eq_ok h
    cases he
    obtain ⟨r, rfl, hentries⟩ := entries_of_scanMembers htable
    refine .of_free (hentries.derives hstep hs) (((skipBlanks_free hs).seq (hentries.free hstep)).imp ?_)
    rintro s r _ ⟨t, hs, hentries⟩
    have hlength : ∀ k (x : Table α) s y r, scanEntry schema.ofText k x s = .ok (y, r) → r.length ≤ s.length :=
      fun k x s y r h => (hstep k x s y r h).length_le
    have hscan := scanMembers_of_entries hlength hentries (Nat.lt_succ_self _)
    simp only [Schema.ofText, hs, hscan]
    rfl
  next => cases h

end Schemas

section Records

variable {name : String} {blank x : α} {slots : Slots α}

theorem closeRecord_eq_ok_iff {y : Scan (Except Problem (Partial α))} : closeRecord slots y = .ok (x, r) ↔
    ∃ p t, y = .ok (.ok p, t) ∧ slots.missing? p.given = none ∧ x = p.value ∧ r = t.tail := by
  unfold closeRecord
  split
  next => simp only [reduceCtorEq, false_and, exists_false]
  next => simp only [Except.ok.injEq, Prod.mk.injEq, reduceCtorEq, false_and, exists_false]
  next p t =>
    constructor
    · intro h
      split at h
      next hmissing =>
        cases h
        exact ⟨p, t, rfl, hmissing, rfl, rfl⟩
      next => cases h
    · rintro ⟨p, t, hy, hmissing, rfl, rfl⟩
      cases hy
      rw [hmissing]

theorem record_ofText (h : (Schema.record name blank slots).ofText s = .ok (x, r)) :
    (∃ t, skipBlanks s = '[' :: t ∧ closeItems (slots.ofItemsText name slots.size 0 blank t) = .ok (x, r)) ∨
      ∃ t, skipBlanks s = '{' :: t ∧
        closeRecord slots (scanRecord slots.ofMemberText (t.length + 1) true ⟨blank, []⟩ t) = .ok (x, r) := by
  rw [Schema.ofText] at h
  split at h
  next t hs => exact .inl ⟨t, hs, h⟩
  next t hs => exact .inr ⟨t, hs, h⟩
  next => cases h

theorem record_ofText_list (hs : skipBlanks s = '[' :: t) :
    (Schema.record name blank slots).ofText s = closeItems (slots.ofItemsText name slots.size 0 blank t) := by
  simp only [Schema.ofText, hs]
  rfl

theorem record_ofText_object (hs : skipBlanks s = '{' :: t) : (Schema.record name blank slots).ofText s =
    closeRecord slots (scanRecord slots.ofMemberText (t.length + 1) true ⟨blank, []⟩ t) := by
  simp only [Schema.ofText, hs]
  rfl

/-- What the fields of a record do with what they know. -/
def TakesFields (slots : Slots α) : Prop :=
  ∀ k f, slots.ofMemberText k = some f → ∀ s set r, f s = .ok (set, r) → Takes (fun s r => f s = .ok (set, r)) s r

/-- What the fields of a record do with a list: its items are values, and it is read whatever follows its end. -/
def TakesItems (slots : Slots α) : Prop :=
  ∀ name fields i x s y r, closeItems (slots.ofItemsText name fields i x s) = .ok (y, r) →
    (∃ us : List Unit, Items (fun t _ u => Derives .value t u) (i == 0) s us r) ∧
      Free (fun s r => closeItems (slots.ofItemsText name fields i x s) = .ok (y, r)) s r

theorem record_free (hfields : TakesFields slots) (hitems : TakesItems slots)
    (h : (Schema.record name blank slots).ofText s = .ok (x, r)) :
    Derives .value s r ∧ Free (fun s r => (Schema.record name blank slots).ofText s = .ok (x, r)) s r := by
  rcases record_ofText h with ⟨t, hs, hlist⟩ | ⟨t, hs, hobject⟩
  · obtain ⟨⟨us, hus⟩, hfree⟩ := hitems _ _ _ _ _ _ _ hlist
    refine ⟨hus.derives (fun _ _ _ hx => hx) hs, ((skipBlanks_free hs).seq hfree).imp ?_⟩
    rintro s r _ ⟨t, hs, hlist⟩
    exact (record_ofText_list hs).trans hlist
  · have hstep : ∀ k (p : Partial α) s q r, scanMember slots.ofMemberText k p s = .ok (.ok q, r) →
        TakesMember (fun s r => scanMember slots.ofMemberText k p s = .ok (.ok q, r)) s r :=
      fun k p s q r => scanMember_takes (hfields k)
    obtain ⟨p, t', hrecord, hmissing, rfl, rfl⟩ := closeRecord_eq_ok_iff.1 hobject
    obtain ⟨r, rfl, hentries⟩ := entries_of_scanRecord hrecord
    refine ⟨hentries.derives hstep hs, ((skipBlanks_free hs).seq (hentries.free hstep)).imp ?_⟩
    rintro s r _ ⟨t, hs, hentries⟩
    have hlength : ∀ k (p : Partial α) s q r, scanMember slots.ofMemberText k p s = .ok (.ok q, r) →
        r.length ≤ s.length := fun k p s q r h => (hstep k p s q r h).length_le
    have hscan := scanRecord_of_entries hlength hentries (Nat.lt_succ_self _)
    rw [record_ofText_object hs, closeRecord_eq_ok_iff]
    exact ⟨p, '}' :: r, hscan, hmissing, rfl, rfl⟩

theorem scanNextItem_ok {y : Option (List Char) × List Char} (h : scanNextItem first s = .ok y) :
    (∃ t, skipBlanks s = ']' :: t ∧ y = (none, ']' :: t)) ∨
      ∃ c t, Begins first s (c :: t) ∧ c ≠ ']' ∧ y = (some (c :: t), c :: t) := by
  rw [scanNextItem] at h
  split at h
  next => cases h
  next t hs =>
    cases h
    exact .inl ⟨t, hs, rfl⟩
  next c t hend hs =>
    refine .inr ?_
    split at h
    next hfirst =>
      subst hfirst
      cases h
      exact ⟨c, t, .first hs, hend, rfl⟩
    next hfirst =>
      rw [Bool.not_eq_true] at hfirst
      subst hfirst
      split at h
      next hcomma =>
        subst hcomma
        split at h
        next => cases h
        next => cases h
        next hnil hend =>
          cases hu : skipBlanks t with
          | nil => exact absurd hu hnil
          | cons c' t' =>
            cases h
            rw [hu]
            exact ⟨c', t', .next hs hu, fun hc => hend t' (hc ▸ hu), rfl⟩
      next => cases h

end Records

theorem Items.rest_of_end {Reads : List Char → α → List Char → Prop} {xs : List α}
    (h : Items Reads false (']' :: t) xs r) : t = r := by
  generalize hfirst : false = first at h
  cases h with
  | nil hs =>
    cases hs
    rfl
  | cons ht =>
    subst hfirst
    cases ht with
    | next hs => cases hs

section Items

variable {required : Bool} {field : String} {schema : Schema β} {set : β → α → α} {rest : Slots α} {name : String}
  {fields i : Nat} {x y : α}

theorem closeItems_end (hs : skipBlanks s = ']' :: t) :
    closeItems ((Slots.cons field required schema set rest).ofItemsText name fields i x s) =
      closeItems (if required then .ok (.error (.invalidLength i (.recordOf name fields)), ']' :: t)
        else rest.ofItemsText name fields (i + 1) x (']' :: t)) := by
  rw [Slots.ofItemsText, scanNextItem_end hs]

theorem closeItems_item {c : Char} {z : β} (ht : Begins (i == 0) s (c :: t)) (hc : c ≠ ']')
    (hx : schema.ofText (c :: t) = .ok (z, u)) :
    closeItems ((Slots.cons field required schema set rest).ofItemsText name fields i x s) =
      closeItems (rest.ofItemsText name fields (i + 1) (set z x) u) := by
  rw [Slots.ofItemsText, scanNextItem_begins ht hc]
  simp only [hx]
  rfl

theorem takes_end (hrest : TakesItems rest) (hs : skipBlanks s = ']' :: t)
    (h : closeItems ((Slots.cons field required schema set rest).ofItemsText name fields i x s) = .ok (y, r)) :
    t = r ∧ Free (fun s r => closeItems ((Slots.cons field required schema set rest).ofItemsText name fields i x s) =
      .ok (y, r)) s r := by
  rw [closeItems_end hs] at h
  split at h
  next => cases h
  next hrequired =>
    obtain ⟨⟨us, hus⟩, p, hp, hfree⟩ := hrest _ _ _ _ _ _ _ h
    obtain rfl := Items.rest_of_end hus
    obtain rfl : [']'] = p := List.append_cancel_right hp
    refine ⟨rfl, (skipBlanks_free hs).imp fun s r _ hs => ?_⟩
    rw [closeItems_end hs, if_neg hrequired]
    exact hfree r trivial

theorem takes_item (hschema : TakesValues schema) (hrest : TakesItems rest) {c : Char}
    (ht : Begins (i == 0) s (c :: t)) (hc : c ≠ ']')
    (h : closeItems ((Slots.cons field required schema set rest).ofItemsText name fields i x s) = .ok (y, r)) :
    (∃ us : List Unit, Items (fun t _ u => Derives .value t u) (i == 0) s us r) ∧
      Free (fun s r => closeItems ((Slots.cons field required schema set rest).ofItemsText name fields i x s) =
        .ok (y, r)) s r := by
  cases hx : schema.ofText (c :: t) with
  | error e =>
    rw [Slots.ofItemsText, scanNextItem_begins ht hc] at h
    simp only [hx] at h
    cases h
  | ok found =>
    obtain ⟨z, u⟩ := found
    rw [closeItems_item ht hc hx] at h
    obtain ⟨⟨us, hus⟩, hfree⟩ := hrest _ _ _ _ _ _ _ h
    obtain ⟨t', hstarts, hs⟩ := begins_iff.1 ht
    rw [← hs, schema.ofText_skipBlanks] at hx
    have htakes := hschema _ _ _ hx
    obtain ⟨c', u', hs', _, hlength⟩ := htakes.derives.exists_skipBlanks
    cases hs.symm.trans hs'
    refine ⟨⟨() :: us, .cons ht hc ?_ hus⟩, ?_⟩
    · exact hs ▸ (hschema _ _ _ ((schema.ofText_skipBlanks t').trans hx)).derives
    have hitem := (htakes.front (Items.endsNumber hus)).head hs hlength
    have hopen := Front.seq hstarts.free hitem fun _ _ _ _ => trivial
    refine (Front.seq hopen hfree fun t r _ ht => ?_).imp ?_
    · obtain ⟨⟨vs, hvs⟩, _⟩ := hrest _ _ _ _ _ _ _ ht
      exact Items.endsNumber hvs
    · rintro s r _ ⟨v, ⟨w, hstarts, hw, t, ht⟩, hclose⟩
      rw [closeItems_item (begins_iff.2 ⟨w, hstarts, ht⟩) hc (ht ▸ (schema.ofText_skipBlanks w).trans hw)]
      exact hclose

end Items

mutual

theorem Schema.takes : {α : Type} → (schema : Schema α) → TakesValues schema
  | _, .text => fun s x r h => by
    simp only [Schema.ofText] at h ⊢
    exact scanText_takes h
  | _, .bool => fun s x r h => by
    simp only [Schema.ofText] at h ⊢
    exact scanBool_takes h
  | _, .word => fun s x r h => by
    simp only [Schema.ofText] at h ⊢
    exact scanWord32_takes h
  | _, .nullable schema => nullable_takes schema.takes
  | _, .list schema => list_takes schema.takes
  | _, .table schema => table_takes schema.takes
  | _, .choice variants => fun s x r h => by
    simp only [Schema.ofText] at h ⊢
    exact scanChoice_takes h
  | _, .record name blank slots => fun s x r h => by
    obtain ⟨hderives, hfree⟩ := record_free slots.takes_fields slots.takes_items h
    exact .of_free hderives hfree

theorem Slots.takes_fields : {α : Type} → (slots : Slots α) → TakesFields slots
  | _, .nil => fun k f h => nomatch h
  | _, .cons name _ schema set rest => by
    intro k f h
    rw [Slots.ofMemberText] at h
    split at h
    next =>
      cases h
      intro s g r hg
      obtain ⟨⟨x, _⟩, hx, he⟩ := exists_of_map_eq_ok hg
      cases he
      refine (schema.takes _ _ _ hx).imp fun s r hx => ?_
      beta_reduce
      rw [hx]
      rfl
    next => exact rest.takes_fields k f h

theorem Slots.takes_items : {α : Type} → (slots : Slots α) → TakesItems slots
  | _, .nil => by
    intro name fields i x s y r h
    obtain ⟨_, hend, he⟩ := exists_of_map_eq_ok h
    cases he
    have hs := skipBlanks_of_scanListEnd hend
    refine ⟨⟨[], .nil hs⟩, (skipBlanks_free hs).imp fun s r _ hs => ?_⟩
    simp only [Slots.ofItemsText, closeItems, scanListEnd, hs]
    rfl
  | _, .cons field required schema set rest => by
    intro name fields i x s y r h
    cases hnext : scanNextItem (i == 0) s with
    | error e =>
      rw [Slots.ofItemsText, hnext] at h
      cases h
    | ok found =>
      rcases scanNextItem_ok hnext with ⟨t, hs, _⟩ | ⟨c, t, ht, hc, _⟩
      · obtain ⟨rfl, hfree⟩ := takes_end rest.takes_items hs h
        exact ⟨⟨[], .nil hs⟩, hfree⟩
      · exact takes_item schema.takes rest.takes_items ht hc h

end

end Autodoc.Json
