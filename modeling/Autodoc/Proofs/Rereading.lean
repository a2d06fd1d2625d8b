import Autodoc.Proofs.Printing

namespace Autodoc.Json

/-- All numbers of a value are whole. -/
inductive Value.Whole : Value → Prop
  | null : Whole .null
  | bool {b : Bool} : Whole (.bool b)
  | int {n : Int} : Whole (.number (.int n))
  | text {x : String} : Whole (.text x)
  | list {vs : List Value} (hvs : ∀ v ∈ vs, Whole v) : Whole (.list vs)
  | object {ms : List (String × Value)} (hms : ∀ e ∈ ms, Whole e.2) : Whole (.object ms)

theorem Value.Exact.whole {depth : Nat} {v : Value} (h : v.Exact depth) : v.Whole := by
  induction h with
  | null => exact .null
  | bool => exact .bool
  | int => exact .int
  | text => exact .text
  | list _ ih => exact .list ih
  | object _ _ ih => exact .object ih

variable {s r : List Char}

theorem absorb_le {sig : Nat} {ds : List Char} (h : sig ≤ 0xFFFFFFFFFFFFFFFF) :
    (absorb sig ds).1 ≤ 0xFFFFFFFFFFFFFFFF := by
  induction ds generalizing sig with
  | nil => exact h
  | cons d ds ih =>
    rw [absorb]
    split
    next hd => exact ih hd
    next => exact h

section Numbers

variable {negative : Bool} {sig : Nat} {e : Int} {n : Number}

theorem float_of_scanScaled (h : scanScaled negative sig e s = .ok (n, r)) : ∃ x, n = .float x := by
  unfold scanScaled at h
  split at h
  · cases h
    exact ⟨_, rfl⟩
  · cases h

theorem float_of_scanExponent (h : scanExponent negative sig e s = .ok (n, r)) : ∃ x, n = .float x := by
  unfold scanExponent at h
  split at h
  split at h
  · cases h
  split at h
  · dsimp only at h
    split at h
    · exact float_of_scanScaled h
    · split at h
      · cases h
      · cases h
        exact ⟨_, rfl⟩
  · cases h

theorem float_of_scanFraction (h : scanFraction negative sig e s = .ok (n, r)) : ∃ x, n = .float x := by
  unfold scanFraction at h
  dsimp only at h
  split at h
  · cases h
  split at h
  · exact float_of_scanExponent h
  · exact float_of_scanExponent h
  · exact float_of_scanScaled h

theorem bounds_of_wholeNumber {n : Int} (hsig : sig ≤ 0xFFFFFFFFFFFFFFFF) (h : wholeNumber negative sig = .int n) :
    -0x8000000000000000 ≤ n ∧ n ≤ 0xFFFFFFFFFFFFFFFF := by
  unfold wholeNumber at h
  split at h
  · split at h
    · cases h
      omega
    · cases h
  · cases h
    omega

theorem bounds_of_scanNumber {n : Int} (h : scanNumber negative s = .ok (.int n, r)) :
    -0x8000000000000000 ≤ n ∧ n ≤ 0xFFFFFFFFFFFFFFFF := by
  unfold scanNumber at h
  split at h
  · cases h
  dsimp only at h
  split at h
  · cases h
  split at h
  · cases h
  split at h
  next =>
    obtain ⟨x, hx⟩ := float_of_scanFraction h
    cases hx
  next =>
    obtain ⟨x, hx⟩ := float_of_scanExponent h
    cases hx
  next =>
    obtain ⟨x, hx⟩ := float_of_scanExponent h
    cases hx
  next =>
    split at h
    · obtain ⟨hn, _⟩ := Prod.mk.inj (Except.ok.inj h)
      exact bounds_of_wholeNumber (absorb_le (by decide)) hn
    · obtain ⟨x, hx⟩ := float_of_scanScaled h
      cases hx

theorem exact_of_scanNumber {depth : Nat} (h : scanNumber negative s = .ok (n, r)) (hn : (Value.number n).Whole) :
    (Value.number n).Exact (depth + 1) := by
  cases hn with
  | int =>
    obtain ⟨hlow, hhigh⟩ := bounds_of_scanNumber h
    exact .int hlow hhigh

end Numbers

section Parts

variable {Reads : List Char → α → List Char → Prop} {first : Bool} {xs : List α} {ms : List (String × α)}

theorem Items.exists_read (h : Items Reads first s xs r) : ∀ x ∈ xs, ∃ t u, Reads t x u := by
  induction h with
  | nil => exact fun _ hx => absurd hx List.not_mem_nil
  | cons _ _ hx _ ih => exact List.forall_mem_cons.2 ⟨⟨_, _, hx⟩, ih⟩

theorem Members.exists_read (h : Members Reads first s ms r) : ∀ e ∈ ms, ∃ t u, Reads t e.2 u := by
  induction h with
  | nil => exact fun _ he => absurd he List.not_mem_nil
  | cons _ _ _ hx _ ih => exact List.forall_mem_cons.2 ⟨⟨_, _, hx⟩, ih⟩

end Parts

theorem mem_of_mem_putEntry {k : String} {v : α} {es : List (String × α)} {e : String × α} (h : e ∈ putEntry k v es) :
    e = (k, v) ∨ e ∈ es := by
  induction es with
  | nil => exact .inl (List.mem_singleton.1 h)
  | cons f es ih =>
    rw [putEntry] at h
    split at h
    · exact (List.mem_cons.1 h).imp_right (List.mem_cons_of_mem f)
    · rcases List.mem_cons.1 h with rfl | h
      · exact .inr List.mem_cons_self
      · exact (ih h).imp_right (List.mem_cons_of_mem f)

theorem kept_members {before : List (String × Value)} (ms : List (String × Value)) (h : (before.map Prod.fst).Nodup) :
    ((ms.foldl (fun ms e => putEntry e.1 e.2 ms) before).map Prod.fst).Nodup ∧
      ∀ e ∈ ms.foldl (fun ms e => putEntry e.1 e.2 ms) before, e ∈ before ∨ e ∈ ms := by
  induction ms generalizing before with
  | nil => exact ⟨h, fun _ => .inl⟩
  | cons m ms ih =>
    obtain ⟨hnodup, hmem⟩ := ih (nodup_putEntry (k := m.1) (v := m.2) h)
    refine ⟨hnodup, fun e he => ?_⟩
    rcases hmem e he with he | he
    · rcases mem_of_mem_putEntry he with rfl | he
      · exact .inr List.mem_cons_self
      · exact .inl he
    · exact .inr (List.mem_cons_of_mem m he)

/-- What is read can be printed without loss, if all its numbers are whole. -/
theorem exact_of_scanValueBy {depth : Nat} {v : Value} (h : scanValueBy putEntry depth s = .ok (v, r)) (hv : v.Whole) :
    v.Exact depth := by
  induction depth generalizing s v r with
  | zero => cases h
  | succ depth ih =>
    rw [scanValueBy] at h
    split at h
    case h_1 => cases h
    case h_2 =>
      obtain ⟨_, _, he⟩ := exists_of_map_eq_ok h
      cases he
      exact .null
    case h_3 | h_4 =>
      obtain ⟨_, _, he⟩ := exists_of_map_eq_ok h
      cases he
      exact .bool
    case h_5 =>
      obtain ⟨_, hn, he⟩ := exists_of_map_eq_ok h
      cases he
      exact exact_of_scanNumber hn hv
    case h_6 =>
      obtain ⟨_, _, he⟩ := exists_of_map_eq_ok h
      cases he
      exact .text
    case h_7 =>
      split at h
      · cases h
      rename_i hdepth
      obtain ⟨depth, rfl⟩ := Nat.exists_eq_succ_of_ne_zero hdepth
      obtain ⟨_, hvs, he⟩ := exists_of_map_eq_ok h
      obtain ⟨_, _, hitems⟩ := items_of_scanItems hvs fun _ _ _ _ hv => hv
      cases he
      cases hv with
      | list hwhole =>
        refine .list fun v hmem => ?_
        obtain ⟨t, u, hread⟩ := hitems.exists_read v hmem
        exact ih hread (hwhole v hmem)
    case h_8 =>
      split at h
      · cases h
      rename_i hdepth
      obtain ⟨depth, rfl⟩ := Nat.exists_eq_succ_of_ne_zero hdepth
      obtain ⟨_, hms, he⟩ := exists_of_map_eq_ok h
      obtain ⟨ms, _, _, hkept, hmembers⟩ := members_of_scanMembers hms
      cases he
      cases hv with
      | object hwhole =>
        rw [hkept] at hwhole ⊢
        have hnone : (([] : List (String × Value)).map Prod.fst).Nodup := List.nodup_nil
        obtain ⟨hkeys, hmem⟩ := kept_members ms hnone
        refine .object hkeys fun e he => ?_
        obtain ⟨t, u, hread⟩ := hmembers.exists_read e ((hmem e he).resolve_left List.not_mem_nil)
        exact ih hread (hwhole e he)
    case h_9 =>
      split at h
      · obtain ⟨_, hn, he⟩ := exists_of_map_eq_ok h
        cases he
        exact exact_of_scanNumber hn hv
      · cases h

/-- All numbers of the value that a text is read as, if it is read as one, are whole. -/
def HasWholeNumbers (text : String) : Prop := ∀ v, Value.ofText text = .ok v → v.Whole

theorem hasWholeNumbers_empty : HasWholeNumbers "" := fun _ h => nomatch h

theorem exact_of_ofText {text : String} {v : Value} (h : Value.ofText text = .ok v) (hv : v.Whole) :
    v.Exact nestingLimit := by
  obtain ⟨r, hread⟩ := exists_scanValue_of_ofText h
  rw [← scanValueBy_putEntry] at hread
  exact exact_of_scanValueBy hread hv

/-- What can be printed without loss is read from its own text. -/
theorem ofText_toText {v : Value} (h : v.Exact nestingLimit) : Value.ofText v.toText = .ok v := by
  have hread : scanValue nestingLimit v.toText.toList = .ok (v, []) := scanValue_of_written (written_toText h)
  rw [Value.ofText, Value.ofTextWithin]
  simp only [hread]
  rfl

end Autodoc.Json
