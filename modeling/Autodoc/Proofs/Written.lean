import Autodoc.Json.Reader
import Autodoc.Proofs.Lexemes

namespace Autodoc.Json

/-- A part begins: the first at once, each other one after a comma. -/
inductive Begins : Bool → List Char → List Char → Prop
  | first {s t : List Char} (ht : skipBlanks s = t) : Begins true s t
  | next {s u t : List Char} (hs : skipBlanks s = ',' :: u) (ht : skipBlanks u = t) : Begins false s t

/-- The items of a list, up to and with its end. -/
inductive Items (Reads : List Char → α → List Char → Prop) : Bool → List Char → List α → List Char → Prop
  | nil {first : Bool} {s r : List Char} (hs : skipBlanks s = ']' :: r) : Items Reads first s [] r
  | cons {first : Bool} {c : Char} {s t u r : List Char} {x : α} {xs : List α} (ht : Begins first s (c :: t))
      (hc : c ≠ ']') (hx : Reads (c :: t) x u) (hxs : Items Reads false u xs r) : Items Reads first s (x :: xs) r

/-- The members of an object, up to and with its end. -/
inductive Members (Reads : List Char → α → List Char → Prop) :
    Bool → List Char → List (String × α) → List Char → Prop
  | nil {first : Bool} {s r : List Char} (hs : skipBlanks s = '}' :: r) : Members Reads first s [] r
  | cons {first : Bool} {k : String} {s t u w z r : List Char} {x : α} {ms : List (String × α)}
      (ht : Begins first s ('"' :: t)) (hk : scanString [] t = .ok (k, u)) (hw : scanColon u = .ok w)
      (hx : Reads w x z) (hms : Members Reads false z ms r) : Members Reads first s ((k, x) :: ms) r

/-- A value, from its first character on; its parts are read by `Reads`. -/
inductive Spells (Reads : List Char → Value → List Char → Prop) : Char → List Char → Value → List Char → Prop
  | null {t r : List Char} (hr : scanWord "ull".toList t = .ok r) : Spells Reads 'n' t .null r
  | yes {t r : List Char} (hr : scanWord "rue".toList t = .ok r) : Spells Reads 't' t (.bool true) r
  | no {t r : List Char} (hr : scanWord "alse".toList t = .ok r) : Spells Reads 'f' t (.bool false) r
  | negative {t r : List Char} {n : Number} (hn : scanNumber true t = .ok (n, r)) : Spells Reads '-' t (.number n) r
  | number {c : Char} {t r : List Char} {n : Number} (hc : isDigit c = true)
      (hn : scanNumber false (c :: t) = .ok (n, r)) : Spells Reads c t (.number n) r
  | text {t r : List Char} {x : String} (hx : scanString [] t = .ok (x, r)) : Spells Reads '"' t (.text x) r
  | list {t r : List Char} {vs : List Value} (hvs : Items Reads true t vs r) : Spells Reads '[' t (.list vs) r
  | object {t r : List Char} {ms : List (String × Value)} (hms : Members Reads true t ms r) :
      Spells Reads '{' t (.object ms) r

variable {Reads Reads' : List Char → α → List Char → Prop} {first : Bool} {s t r : List Char} {x : α} {xs : List α}
  {ms : List (String × α)}

namespace Begins

theorem length_le (h : Begins first s t) : t.length ≤ s.length := by
  cases h with
  | first ht =>
    rw [← ht]
    exact length_skipBlanks_le s
  | @next _ u _ hs ht =>
    have hcomma := length_skipBlanks_le s
    have hle := length_skipBlanks_le u
    rw [hs, List.length_cons] at hcomma
    rw [← ht]
    omega

end Begins

namespace Items

theorem length (hlength : ∀ t x u, Reads t x u → u.length < t.length) (h : Items Reads first s xs r) :
    xs.length + r.length < s.length := by
  induction h with
  | @nil _ s r hs =>
    have hle := length_skipBlanks_le s
    rw [hs, List.length_cons] at hle
    simp only [List.length_nil]
    omega
  | cons ht hc hx _ ih =>
    have hle := ht.length_le
    have hitem := hlength _ _ _ hx
    simp only [List.length_cons] at hle hitem ⊢
    omega

theorem within (hlength : ∀ t x u, Reads t x u → u.length < t.length) (h : Items Reads first s xs r) {n : Nat}
    (hn : s.length ≤ n) : Items (fun t x u => Reads t x u ∧ t.length ≤ n) first s xs r := by
  induction h with
  | nil hs => exact .nil hs
  | cons ht hc hx _ ih =>
    have hle := ht.length_le
    have hitem := hlength _ _ _ hx
    exact .cons ht hc ⟨hx, hle.trans hn⟩ (ih (by omega))

theorem imp (h : Items Reads first s xs r) (himp : ∀ t u, ∀ x ∈ xs, Reads t x u → Reads' t x u) :
    Items Reads' first s xs r := by
  induction h with
  | nil hs => exact .nil hs
  | cons ht hc hx _ ih =>
    have hrest := ih fun t u y hy => himp t u y (List.mem_cons_of_mem _ hy)
    exact .cons ht hc (himp _ _ _ List.mem_cons_self hx) hrest

theorem exists_imp {Reads' : List Char → β → List Char → Prop} (h : Items Reads first s xs r)
    (himp : ∀ t x u, Reads t x u → ∃ y, Reads' t y u) : ∃ ys, Items Reads' first s ys r := by
  induction h with
  | nil hs => exact ⟨[], .nil hs⟩
  | cons ht hc hx _ ih =>
    obtain ⟨y, hy⟩ := himp _ _ _ hx
    obtain ⟨ys, hys⟩ := ih
    exact ⟨y :: ys, .cons ht hc hy hys⟩

end Items

namespace Members

theorem length (hlength : ∀ t x u, Reads t x u → u.length < t.length) (h : Members Reads first s ms r) :
    ms.length + r.length < s.length := by
  induction h with
  | @nil _ s r hs =>
    have hle := length_skipBlanks_le s
    rw [hs, List.length_cons] at hle
    simp only [List.length_nil]
    omega
  | cons ht hk hw hx _ ih =>
    have hle := ht.length_le
    have hkey := length_of_skimString (skimString_of_scanString hk)
    have hcolon := length_of_scanColon hw
    have hvalue := hlength _ _ _ hx
    simp only [List.length_cons] at hle ⊢
    omega

theorem within (hlength : ∀ t x u, Reads t x u → u.length < t.length) (h : Members Reads first s ms r) {n : Nat}
    (hn : s.length ≤ n) : Members (fun t x u => Reads t x u ∧ t.length ≤ n) first s ms r := by
  induction h with
  | nil hs => exact .nil hs
  | cons ht hk hw hx _ ih =>
    have hle := ht.length_le
    have hkey := length_of_skimString (skimString_of_scanString hk)
    have hcolon := length_of_scanColon hw
    have hvalue := hlength _ _ _ hx
    simp only [List.length_cons] at hle
    exact .cons ht hk hw ⟨hx, by omega⟩ (ih (by omega))

theorem imp (h : Members Reads first s ms r) (himp : ∀ t u, ∀ e ∈ ms, Reads t e.2 u → Reads' t e.2 u) :
    Members Reads' first s ms r := by
  induction h with
  | nil hs => exact .nil hs
  | cons ht hk hw hx _ ih =>
    have hrest := ih fun t u e he => himp t u e (List.mem_cons_of_mem _ he)
    exact .cons ht hk hw (himp _ _ _ List.mem_cons_self hx) hrest

theorem exists_imp {Reads' : List Char → β → List Char → Prop} (h : Members Reads first s ms r)
    (himp : ∀ t x u, Reads t x u → ∃ y, Reads' t y u) : ∃ ms', Members Reads' first s ms' r := by
  induction h with
  | nil hs => exact ⟨[], .nil hs⟩
  | @cons _ k _ _ _ _ _ _ _ _ ht hk hw hx _ ih =>
    obtain ⟨y, hy⟩ := himp _ _ _ hx
    obtain ⟨ms', hms'⟩ := ih
    exact ⟨(k, y) :: ms', .cons ht hk hw hy hms'⟩

end Members

theorem exists_of_map_eq_ok {x : Except ε α} {f : α → β} {b : β} (h : x.map f = .ok b) :
    ∃ a, x = .ok a ∧ f a = b := by
  cases x with
  | error e => cases h
  | ok a => exact ⟨a, rfl, Except.ok.inj h⟩

theorem scanItems_nil {read : Nat → List Char → Scan α} {fuel i : Nat} (hs : skipBlanks s = ']' :: r) :
    scanItems read (fuel + 1) i s = .ok ([], ']' :: r) := by
  simp only [scanItems, hs]

theorem scanItems_cons {read : Nat → List Char → Scan α} {fuel i : Nat} {c : Char}
    (ht : Begins (i == 0) s (c :: t)) (hc : c ≠ ']') : scanItems read (fuel + 1) i s =
      match read i (c :: t) with
      | .error e => .error e
      | .ok (x, u) =>
        match scanItems read fuel (i + 1) u with
        | .error e => .error e
        | .ok (xs, r) => .ok (x :: xs, r) := by
  rw [scanItems]
  generalize hfirst : (i == 0) = first at ht
  cases ht with
  | first hs =>
    split
    next hnil => cases hnil.symm.trans hs
    next hend =>
      cases hend.symm.trans hs
      exact absurd rfl hc
    next hnext =>
      cases hnext.symm.trans hs
      exact if_pos (eq_of_beq hfirst)
  | next hs ht =>
    split
    next hnil => cases hnil.symm.trans hs
    next hend => cases hend.symm.trans hs
    next hnext =>
      cases hnext.symm.trans hs
      rw [if_neg (ne_of_beq_false hfirst), if_pos rfl]
      split
      next hnil => cases hnil.symm.trans ht
      next hend =>
        cases hend.symm.trans ht
        exact absurd rfl hc
      next => exact ht ▸ rfl

theorem begins_of_scanItems {read : Nat → List Char → Scan α} {fuel i : Nat} {u : List Char}
    (h : scanItems read (fuel + 1) i s = .ok (xs, u)) :
    (∃ r, skipBlanks s = ']' :: r) ∨ ∃ c t, Begins (i == 0) s (c :: t) ∧ c ≠ ']' := by
  rw [scanItems] at h
  split at h
  next => cases h
  next r hs => exact .inl ⟨r, hs⟩
  next c t hend hs =>
    refine .inr ?_
    split at h
    next hi => exact ⟨c, t, beq_iff_eq.2 hi ▸ .first hs, hend⟩
    next hi =>
      split at h
      next hcomma =>
        subst hcomma
        rw [beq_false_of_ne hi]
        split at h
        next => cases h
        next => cases h
        next hnil hend =>
          cases hu : skipBlanks t with
          | nil => exact absurd hu hnil
          | cons c' t' => exact ⟨c', t', .next hs hu, fun hc => hend t' (hc ▸ hu)⟩
      next => cases h

theorem items_of_scanItems {read : Nat → List Char → Scan α} {fuel i : Nat} {u : List Char}
    (h : scanItems read fuel i s = .ok (xs, u)) (hread : ∀ i t x u, read i t = .ok (x, u) → Reads t x u) :
    ∃ r, u = ']' :: r ∧ Items Reads (i == 0) s xs r := by
  induction fuel generalizing i s xs u with
  | zero => cases h
  | succ fuel ih =>
    rcases begins_of_scanItems h with ⟨r, hs⟩ | ⟨c, t, ht, hc⟩
    · rw [scanItems_nil hs] at h
      cases h
      exact ⟨r, rfl, .nil hs⟩
    · rw [scanItems_cons ht hc] at h
      split at h
      · cases h
      rename_i hx
      split at h
      · cases h
      rename_i hxs
      cases h
      obtain ⟨r, rfl, hitems⟩ := ih hxs
      exact ⟨r, rfl, .cons ht hc (hread _ _ _ _ hx) hitems⟩

theorem scanItems_of_items {read : Nat → List Char → Scan α} {fuel i : Nat}
    (h : Items Reads first s xs r) (hread : ∀ i t x u, Reads t x u → read i t = .ok (x, u))
    (hfirst : first = (i == 0)) (hfuel : xs.length < fuel) : scanItems read fuel i s = .ok (xs, ']' :: r) := by
  induction h generalizing fuel i with
  | nil hs =>
    obtain ⟨fuel, rfl⟩ := Nat.exists_eq_add_one_of_ne_zero (Nat.ne_zero_of_lt hfuel)
    exact scanItems_nil hs
  | cons ht hc hx _ ih =>
    obtain ⟨fuel, rfl⟩ := Nat.exists_eq_add_one_of_ne_zero (Nat.ne_zero_of_lt hfuel)
    subst hfirst
    have hrest := ih (i := i + 1) rfl (Nat.lt_of_succ_lt_succ hfuel)
    rw [scanItems_cons ht hc, hread _ _ _ _ hx]
    simp only [hrest]

theorem scanKey_end (hs : skipBlanks s = '}' :: r) : scanKey first s = .ok (none, '}' :: r) := by
  simp only [scanKey, hs]

theorem scanKey_begins (ht : Begins first s ('"' :: t)) :
    scanKey first s = (scanString [] t).map fun (k, u) => (some k, u) := by
  rw [scanKey]
  cases ht with
  | first hs =>
    split
    next hnil => cases hnil.symm.trans hs
    next hend => cases hend.symm.trans hs
    next hnext =>
      cases hnext.symm.trans hs
      rw [if_pos rfl, if_pos rfl]
      beta_reduce
      cases scanString [] t <;> rfl
  | next hs ht =>
    split
    next hnil => cases hnil.symm.trans hs
    next hend => cases hend.symm.trans hs
    next hnext =>
      cases hnext.symm.trans hs
      rw [if_neg Bool.false_ne_true, if_pos rfl]
      split
      next hnil => cases hnil.symm.trans ht
      next hkey =>
        cases hkey.symm.trans ht
        beta_reduce
        cases scanString [] t <;> rfl
      next hend => cases hend.symm.trans ht
      next hkey _ => exact absurd ht (hkey t)

theorem begins_of_scanKey {k? : Option String} {u : List Char} (h : scanKey first s = .ok (k?, u)) :
    (∃ r, skipBlanks s = '}' :: r ∧ k? = none ∧ u = '}' :: r) ∨
      ∃ k t, Begins first s ('"' :: t) ∧ scanString [] t = .ok (k, u) ∧ k? = some k := by
  -- a key is read in the same way wherever it begins
  have hkey : ∀ t, Begins first s ('"' :: t) →
      ∃ k t, Begins first s ('"' :: t) ∧ scanString [] t = .ok (k, u) ∧ k? = some k := by
    intro t ht
    rw [scanKey_begins ht] at h
    obtain ⟨⟨k, _⟩, hk, he⟩ := exists_of_map_eq_ok h
    cases he
    exact ⟨k, t, ht, hk, rfl⟩
  rw [scanKey] at h
  split at h
  next => cases h
  next r hs =>
    cases h
    exact .inl ⟨r, hs, rfl, rfl⟩
  next c t _ hs =>
    refine .inr ?_
    split at h
    next hfirst =>
      subst hfirst
      split at h
      next hc =>
        subst hc
        exact hkey t (.first hs)
      next => cases h
    next hfirst =>
      rw [Bool.not_eq_true] at hfirst
      subst hfirst
      split at h
      next hcomma =>
        subst hcomma
        split at h
        next => cases h
        next t' ht => exact hkey t' (.next hs ht)
        next => cases h
        next => cases h
      next => cases h

theorem scanMembers_nil {read : String → σ → List Char → Scan σ} {fuel : Nat} {state : σ}
    (hs : skipBlanks s = '}' :: r) : scanMembers read (fuel + 1) first state s = .ok (state, '}' :: r) := by
  rw [scanMembers, scanKey_end hs]
  rfl

theorem scanMembers_cons {read : String → σ → List Char → Scan σ} {fuel : Nat} {state : σ} {k : String}
    {u : List Char} (ht : Begins first s ('"' :: t)) (hk : scanString [] t = .ok (k, u)) :
    scanMembers read (fuel + 1) first state s =
      match read k state u with
      | .error e => .error e
      | .ok (state, r) => scanMembers read fuel false state r := by
  rw [scanMembers, scanKey_begins ht, hk]
  rfl

theorem begins_of_scanMembers {read : String → σ → List Char → Scan σ} {fuel : Nat} {state state' : σ}
    {u : List Char} (h : scanMembers read (fuel + 1) first state s = .ok (state', u)) :
    (∃ r, skipBlanks s = '}' :: r) ∨ ∃ k t w, Begins first s ('"' :: t) ∧ scanString [] t = .ok (k, w) := by
  rw [scanMembers] at h
  cases hkey : scanKey first s with
  | error e =>
    rw [hkey] at h
    cases h
  | ok found =>
    rcases begins_of_scanKey hkey with ⟨r, hs, _, _⟩ | ⟨k, t, ht, hk, _⟩
    · exact .inl ⟨r, hs⟩
    · exact .inr ⟨k, t, _, ht, hk⟩

def scanMemberBy (put : String → Value → List (String × Value) → List (String × Value))
    (read : List Char → Scan Value) (k : String) (ms : List (String × Value)) (s : List Char) :
    Scan (List (String × Value)) :=
  match scanColon s with
  | .error e => .error e
  | .ok s' => (read s').map fun (v, r) => (put k v ms, r)

/-- Any value, nested fewer than `depth` deep; `put` says what a member does to those before it. -/
def scanValueBy (put : String → Value → List (String × Value) → List (String × Value)) :
    Nat → List Char → Scan Value
  | 0, s => .error (.next .nestedTooDeep s)
  | depth + 1, s =>
    match skipBlanks s with
    | [] => .error (.here .endInValue [])
    | 'n' :: r => (scanWord "ull".toList r).map (.null, ·)
    | 't' :: r => (scanWord "rue".toList r).map (.bool true, ·)
    | 'f' :: r => (scanWord "alse".toList r).map (.bool false, ·)
    | '-' :: r => (scanNumber true r).map fun (n, r) => (.number n, r)
    | '"' :: r => (scanString [] r).map fun (t, r) => (.text t, r)
    | '[' :: r =>
      if depth = 0 then .error (.next .nestedTooDeep ('[' :: r))
      else
        (scanItems (fun _ => scanValueBy put depth) (r.length + 1) 0 r).map fun (vs, r) => (.list vs, r.tail)
    | '{' :: r =>
      if depth = 0 then .error (.next .nestedTooDeep ('{' :: r))
      else
        (scanMembers (scanMemberBy put (scanValueBy put depth)) (r.length + 1) true [] r).map
          fun (ms, r) => (.object ms, r.tail)
    | c :: r =>
      if isDigit c then (scanNumber false (c :: r)).map fun (n, r) => (.number n, r)
      else .error (.next .expectedValue (c :: r))

theorem scanValueBy_putEntry (depth : Nat) : scanValueBy putEntry depth = scanValue depth := by
  induction depth with
  | zero => rfl
  | succ depth ih =>
    funext s
    rw [scanValueBy, scanValue, ih]
    rfl

section Members

variable {put : String → Value → List (String × Value) → List (String × Value)} {read : List Char → Scan Value}
  {fuel : Nat} {before after ms : List (String × Value)}

theorem scanMemberBy_eq {k : String} {v : Value} {u w z : List Char} (hw : scanColon u = .ok w)
    (hv : read w = .ok (v, z)) : scanMemberBy put read k before u = .ok (put k v before, z) := by
  simp only [scanMemberBy, hw, hv]
  rfl

theorem exists_of_scanMemberBy {k : String} {u z : List Char}
    (h : scanMemberBy put read k before u = .ok (after, z)) :
    ∃ w v, scanColon u = .ok w ∧ read w = .ok (v, z) ∧ after = put k v before := by
  unfold scanMemberBy at h
  split at h
  · cases h
  · rename_i w hw
    obtain ⟨⟨v, z'⟩, hv, hput⟩ := exists_of_map_eq_ok h
    cases hput
    exact ⟨w, v, hw, hv, rfl⟩

theorem members_of_scanMembers {u : List Char}
    (h : scanMembers (scanMemberBy put read) fuel first before s = .ok (after, u)) :
    ∃ ms r, u = '}' :: r ∧ after = ms.foldl (fun ms e => put e.1 e.2 ms) before ∧
      Members (fun t v u => read t = .ok (v, u)) first s ms r := by
  induction fuel generalizing first before s with
  | zero => cases h
  | succ fuel ih =>
    rcases begins_of_scanMembers h with ⟨r, hs⟩ | ⟨k, t, w, ht, hk⟩
    · rw [scanMembers_nil hs] at h
      cases h
      exact ⟨[], r, rfl, rfl, .nil hs⟩
    · rw [scanMembers_cons ht hk] at h
      split at h
      · cases h
      rename_i hmember
      obtain ⟨z, v, hw, hv, rfl⟩ := exists_of_scanMemberBy hmember
      obtain ⟨ms, r, rfl, rfl, hms⟩ := ih h
      exact ⟨(k, v) :: ms, r, rfl, rfl, .cons ht hk hw hv hms⟩

theorem scanMembers_of_members (h : Members (fun t v u => read t = .ok (v, u)) first s ms r)
    (hfuel : ms.length < fuel) : scanMembers (scanMemberBy put read) fuel first before s =
      .ok (ms.foldl (fun ms e => put e.1 e.2 ms) before, '}' :: r) := by
  induction h generalizing fuel before with
  | nil hs =>
    obtain ⟨fuel, rfl⟩ := Nat.exists_eq_add_one_of_ne_zero (Nat.ne_zero_of_lt hfuel)
    exact scanMembers_nil hs
  | cons ht hk hw hv _ ih =>
    obtain ⟨fuel, rfl⟩ := Nat.exists_eq_add_one_of_ne_zero (Nat.ne_zero_of_lt hfuel)
    rw [scanMembers_cons ht hk, scanMemberBy_eq hw hv]
    exact ih (Nat.lt_of_succ_lt_succ hfuel)

end Members

def keepMember (k : String) (v : Value) (ms : List (String × Value)) : List (String × Value) := ms ++ [(k, v)]

theorem foldl_keepMember (before ms : List (String × Value)) :
    ms.foldl (fun ms e => keepMember e.1 e.2 ms) before = before ++ ms := by
  induction ms generalizing before with
  | nil => rw [List.foldl_nil, List.append_nil]
  | cons e ms ih => rw [List.foldl_cons, ih, keepMember, List.append_assoc, List.singleton_append]

/-- A value as it is written, with every member of each object. -/
def scanWritten : Nat → List Char → Scan Value := scanValueBy keepMember

theorem spells_of_scanWritten {depth : Nat} {v : Value} (h : scanWritten (depth + 1) s = .ok (v, r)) :
    ∃ c t, skipBlanks s = c :: t ∧ Spells (fun t v u => scanWritten depth t = .ok (v, u)) c t v r := by
  rw [scanWritten, scanValueBy] at h
  split at h
  next => cases h
  next hs =>
    obtain ⟨_, hr, he⟩ := exists_of_map_eq_ok h
    cases he
    exact ⟨_, _, hs, .null hr⟩
  next hs =>
    obtain ⟨_, hr, he⟩ := exists_of_map_eq_ok h
    cases he
    exact ⟨_, _, hs, .yes hr⟩
  next hs =>
    obtain ⟨_, hr, he⟩ := exists_of_map_eq_ok h
    cases he
    exact ⟨_, _, hs, .no hr⟩
  next hs =>
    obtain ⟨_, hn, he⟩ := exists_of_map_eq_ok h
    cases he
    exact ⟨_, _, hs, .negative hn⟩
  next hs =>
    obtain ⟨_, hx, he⟩ := exists_of_map_eq_ok h
    cases he
    exact ⟨_, _, hs, .text hx⟩
  next hs =>
    split at h
    · cases h
    obtain ⟨⟨vs, u⟩, hvs, he⟩ := exists_of_map_eq_ok h
    obtain ⟨r', rfl, hitems⟩ := items_of_scanItems hvs fun _ _ _ _ hv => hv
    cases he
    exact ⟨_, _, hs, .list hitems⟩
  next hs =>
    split at h
    · cases h
    obtain ⟨⟨ms, u⟩, hms, he⟩ := exists_of_map_eq_ok h
    obtain ⟨ms', r', rfl, rfl, hmembers⟩ := members_of_scanMembers hms
    cases he
    rw [foldl_keepMember, List.nil_append]
    exact ⟨_, _, hs, .object hmembers⟩
  next hs =>
    split at h
    next hc =>
      obtain ⟨_, hn, he⟩ := exists_of_map_eq_ok h
      cases he
      exact ⟨_, _, hs, .number hc hn⟩
    next => cases h

theorem length_of_scanWritten {depth : Nat} {v : Value} (h : scanWritten depth s = .ok (v, r)) :
    r.length < s.length := by
  induction depth generalizing s v r with
  | zero => cases h
  | succ depth ih =>
    have hle := length_skipBlanks_le s
    obtain ⟨c, t, hs, hspells⟩ := spells_of_scanWritten h
    rw [hs, List.length_cons] at hle
    cases hspells with
    | null hr | yes hr | no hr =>
      have hword := length_of_scanWord hr
      omega
    | negative hn =>
      have hnumber := length_of_skimNumber (skimNumber_of_scanNumber hn)
      omega
    | number hc hn =>
      have hnumber := length_of_skimNumber (skimNumber_of_scanNumber hn)
      rw [List.length_cons] at hnumber
      omega
    | text hx =>
      have htext := length_of_skimString (skimString_of_scanString hx)
      omega
    | list hvs =>
      have hitems := hvs.length fun t v u => ih
      omega
    | object hms =>
      have hmembers := hms.length fun t v u => ih
      omega

section Parts

variable {put : String → Value → List (String × Value) → List (String × Value)} {depth : Nat}

theorem scanValueBy_number {c : Char} {n : Number} (hs : skipBlanks s = c :: t) (hc : isDigit c = true)
    (hn : scanNumber false (c :: t) = .ok (n, r)) : scanValueBy put (depth + 1) s = .ok (.number n, r) := by
  rw [scanValueBy]
  split
  case h_1 heq => cases heq.symm.trans hs
  case h_9 heq =>
    cases heq.symm.trans hs
    rw [if_pos hc, hn]
    rfl
  all_goals
    rename_i heq
    cases heq.symm.trans hs
    cases hc

theorem scanValueBy_list {vs : List Value} (hs : skipBlanks s = '[' :: t) (hd : depth ≠ 0)
    (hvs : Items (fun t v u => scanValueBy put depth t = .ok (v, u)) true t vs r) (hlength : vs.length ≤ t.length) :
    scanValueBy put (depth + 1) s = .ok (.list vs, r) := by
  simp only [scanValueBy, hs, if_neg hd]
  have hitems : scanItems (fun _ => scanValueBy put depth) (t.length + 1) 0 t = .ok (vs, ']' :: r) :=
    scanItems_of_items hvs (fun _ _ _ _ hv => hv) rfl (Nat.lt_succ_of_le hlength)
  rw [hitems]
  rfl

theorem scanValueBy_object {ms : List (String × Value)} (hs : skipBlanks s = '{' :: t) (hd : depth ≠ 0)
    (hms : Members (fun t v u => scanValueBy put depth t = .ok (v, u)) true t ms r)
    (hlength : ms.length ≤ t.length) : scanValueBy put (depth + 1) s =
      .ok (.object (ms.foldl (fun ms e => put e.1 e.2 ms) []), r) := by
  simp only [scanValueBy, hs, if_neg hd]
  rw [scanMembers_of_members hms (Nat.lt_succ_of_le hlength)]
  rfl

/-- What can be read at all can be read as it is written. -/
theorem exists_scanWritten {v : Value} (h : scanValueBy put depth s = .ok (v, r)) :
    ∃ w, scanWritten depth s = .ok (w, r) := by
  induction depth generalizing s v r with
  | zero => cases h
  | succ depth ih =>
    rw [scanValueBy] at h
    split at h
    case h_1 => cases h
    case h_7 hs =>
      split at h
      · cases h
      rename_i hdepth
      obtain ⟨⟨_, _⟩, hvs, he⟩ := exists_of_map_eq_ok h
      obtain ⟨r', rfl, hitems⟩ := items_of_scanItems hvs fun _ _ _ _ hv => hv
      cases he
      obtain ⟨ws, hws⟩ := hitems.exists_imp fun _ _ _ => ih
      have hlength := hws.length fun _ _ _ => length_of_scanWritten
      exact ⟨_, scanValueBy_list hs hdepth hws (by omega)⟩
    case h_8 hs =>
      split at h
      · cases h
      rename_i hdepth
      obtain ⟨⟨_, _⟩, hms, he⟩ := exists_of_map_eq_ok h
      obtain ⟨_, r', rfl, _, hmembers⟩ := members_of_scanMembers hms
      cases he
      obtain ⟨ws, hws⟩ := hmembers.exists_imp fun _ _ _ => ih
      have hlength := hws.length fun _ _ _ => length_of_scanWritten
      exact ⟨_, scanValueBy_object hs hdepth hws (by omega)⟩
    case h_9 hs =>
      split at h
      next hc =>
        obtain ⟨_, hn, he⟩ := exists_of_map_eq_ok h
        cases he
        exact ⟨_, scanValueBy_number hs hc hn⟩
      next => cases h
    -- a value without parts does not depend on what is kept
    all_goals
      rename_i hs
      refine ⟨v, ?_⟩
      simp only [scanWritten, scanValueBy, hs]
      exact h

end Parts

/-- No object of a value has a key twice. -/
inductive Value.DistinctKeys : Value → Prop
  | null : DistinctKeys .null
  | bool {b : Bool} : DistinctKeys (.bool b)
  | number {n : Number} : DistinctKeys (.number n)
  | text {x : String} : DistinctKeys (.text x)
  | list {vs : List Value} (hvs : ∀ v ∈ vs, DistinctKeys v) : DistinctKeys (.list vs)
  | object {ms : List (String × Value)} (hkeys : (ms.map Prod.fst).Nodup) (hms : ∀ e ∈ ms, DistinctKeys e.2) :
      DistinctKeys (.object ms)

/-- No object that is written in a text has a key twice. -/
def RepeatsNoKey (text : String) : Prop :=
  ∀ w r, scanWritten nestingLimit text.toList = .ok (w, r) → w.DistinctKeys

/-- A value is written at the beginning of a text, and no object in it has a key twice. -/
structure Written (depth : Nat) (s : List Char) (v : Value) (r : List Char) : Prop where
  read : scanWritten depth s = .ok (v, r)
  distinct : v.DistinctKeys

namespace Written

variable {depth : Nat} {v : Value}

theorem length (h : Written depth s v r) : r.length < s.length := length_of_scanWritten h.read

theorem skipBlanks (h : Written depth s v r) : Written depth (skipBlanks s) v r := by
  refine ⟨?_, h.distinct⟩
  have hread := h.read
  cases depth with
  | zero => cases hread
  | succ depth =>
    rw [scanWritten, scanValueBy] at hread ⊢
    rwa [skipBlanks_skipBlanks]

theorem spells (h : Written (depth + 1) s v r) :
    ∃ c t, Json.skipBlanks s = c :: t ∧ Spells (Written depth) c t v r := by
  have hdistinct := h.distinct
  obtain ⟨c, t, hs, hspells⟩ := spells_of_scanWritten h.read
  refine ⟨c, t, hs, ?_⟩
  cases hspells with
  | null hr => exact .null hr
  | yes hr => exact .yes hr
  | no hr => exact .no hr
  | negative hn => exact .negative hn
  | number hc hn => exact .number hc hn
  | text hx => exact .text hx
  | list hvs =>
    cases hdistinct with
    | list hall => exact .list (hvs.imp fun _ _ v hv hread => ⟨hread, hall v hv⟩)
  | object hms =>
    cases hdistinct with
    | object _ hall => exact .object (hms.imp fun _ _ e he hread => ⟨hread, hall e he⟩)

theorem exists_spells (h : Written depth s v r) :
    ∃ d c t, Json.skipBlanks s = c :: t ∧ Spells (Written d) c t v r := by
  cases depth with
  | zero => cases h.read
  | succ d => exact ⟨d, h.spells⟩

end Written

theorem putEntry_of_notMem {k : String} {v : Value} {ms : List (String × Value)} (h : k ∉ ms.map Prod.fst) :
    putEntry k v ms = ms ++ [(k, v)] := by
  induction ms with
  | nil => rfl
  | cons e ms ih =>
    rw [List.map_cons, List.mem_cons, not_or] at h
    rw [putEntry, if_neg fun he => h.1 he.symm, ih h.2, List.cons_append]

theorem foldl_putEntry {before ms : List (String × Value)} (h : ((before ++ ms).map Prod.fst).Nodup) :
    ms.foldl (fun ms e => putEntry e.1 e.2 ms) before = before ++ ms := by
  induction ms generalizing before with
  | nil => rw [List.foldl_nil, List.append_nil]
  | cons e ms ih =>
    rw [List.append_cons] at h
    have hnew : e.1 ∉ before.map Prod.fst := by
      rw [List.map_append, List.map_append, List.map_singleton] at h
      exact fun hmem => (List.nodup_append.1 (List.nodup_append.1 h).1).2.2 _ hmem _ List.mem_cons_self rfl
    rw [List.foldl_cons, putEntry_of_notMem hnew, ih h, List.append_assoc, List.singleton_append]

theorem depth_ne_zero {depth : Nat} {v : Value} (hs : skipBlanks s = '[' :: t ∨ skipBlanks s = '{' :: t)
    (h : scanWritten (depth + 1) s = .ok (v, r)) : depth ≠ 0 := by
  rintro rfl
  rcases hs with hs | hs
  · simp only [scanWritten, scanValueBy, hs] at h
    cases h
  · simp only [scanWritten, scanValueBy, hs] at h
    cases h

/-- Where no key comes again, what is written is what is read. -/
theorem scanValue_of_written {depth : Nat} {v : Value} (h : Written depth s v r) :
    scanValue depth s = .ok (v, r) := by
  rw [← scanValueBy_putEntry]
  induction depth generalizing s v r with
  | zero => cases h.read
  | succ depth ih =>
    have hread := h.read
    have hkeys := h.distinct
    obtain ⟨c, t, hs, hspells⟩ := h.spells
    cases hspells with
    | null hr | yes hr | no hr =>
      simp only [scanValueBy, hs, hr]
      rfl
    | negative hn =>
      simp only [scanValueBy, hs, hn]
      rfl
    | number hc hn => exact scanValueBy_number hs hc hn
    | text hx =>
      simp only [scanValueBy, hs, hx]
      rfl
    | list hvs =>
      have hlength := hvs.length fun _ _ _ hv => hv.length
      exact scanValueBy_list hs (depth_ne_zero (.inl hs) hread) (hvs.imp fun _ _ _ _ => ih) (by omega)
    | @object _ _ ms hms =>
      have hlength := hms.length fun _ _ _ hv => hv.length
      have hobject := scanValueBy_object hs (depth_ne_zero (.inr hs) hread) (hms.imp fun _ _ _ _ => ih) (by omega)
      cases hkeys with
      | object hnodup _ =>
        have hfold : ms.foldl (fun ms e => putEntry e.1 e.2 ms) [] = [] ++ ms := foldl_putEntry hnodup
        rwa [hfold, List.nil_append] at hobject

theorem exists_scanValue_of_ofText {text : String} {v : Value} (h : Value.ofText text = .ok v) :
    ∃ r, scanValue nestingLimit text.toList = .ok (v, r) := by
  rw [Value.ofText, Value.ofTextWithin] at h
  split at h
  · cases h
  · rename_i w u hread
    split at h
    · cases h
      exact ⟨u, hread⟩
    · cases h

theorem written_of_ofText {text : String} {v : Value} (h : Value.ofText text = .ok v) (hkeys : RepeatsNoKey text) :
    ∃ r, Written nestingLimit text.toList v r := by
  obtain ⟨r, hread⟩ := exists_scanValue_of_ofText h
  have hby : scanValueBy putEntry nestingLimit text.toList = .ok (v, r) := by rw [scanValueBy_putEntry, hread]
  obtain ⟨w, hw⟩ := exists_scanWritten hby
  have hwritten : Written nestingLimit text.toList w r := ⟨hw, hkeys w r hw⟩
  cases (scanValue_of_written hwritten).symm.trans hread
  exact ⟨r, hwritten⟩

end Autodoc.Json
