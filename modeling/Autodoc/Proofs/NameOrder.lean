import Autodoc.Walk

namespace Autodoc

namespace Text

def bytes (s : String) : List UInt8 := s.toUTF8.data.toList

theorem bytes_eq_flatMap (s : String) : bytes s = s.toList.flatMap String.utf8EncodeChar := by
  unfold bytes
  rw [String.toUTF8_eq_toByteArray, ← String.utf8Encode_toList, List.utf8Encode,
    List.toList_data_toByteArray]

theorem ofNat_lt_ofNat {m n : Nat} (hm : m < 256) (hn : n < 256) :
    UInt8.ofNat m < UInt8.ofNat n ↔ m < n := by
  rw [UInt8.lt_iff_toNat_lt, UInt8.toNat_ofNat_of_lt' hm, UInt8.toNat_ofNat_of_lt' hn]

theorem ofNat_eq_ofNat {m n : Nat} (hm : m < 256) (hn : n < 256) :
    UInt8.ofNat m = UInt8.ofNat n ↔ m = n := by
  rw [← UInt8.toNat_inj, UInt8.toNat_ofNat_of_lt' hm, UInt8.toNat_ofNat_of_lt' hn]

theorem cons_ofNat_lt {m n : Nat} {xs ys : List UInt8} (hm : m < 256) (hn : n < 256) :
    UInt8.ofNat m :: xs < UInt8.ofNat n :: ys ↔ m < n ∨ m = n ∧ xs < ys := by
  rw [List.cons_lt_cons_iff, ofNat_lt_ofNat hm hn, ofNat_eq_ofNat hm hn]

/-- Numbers compare as their digits to the base 64, of which the bytes of a character hold six bits each. -/
theorem digits_of_lt {m n : Nat} (h : m < n) :
    m / 262144 < n / 262144 ∨ m / 262144 = n / 262144 ∧
      (m / 4096 % 64 < n / 4096 % 64 ∨ m / 4096 % 64 = n / 4096 % 64 ∧
        (m / 64 % 64 < n / 64 % 64 ∨ m / 64 % 64 = n / 64 % 64 ∧ m % 64 < n % 64)) := by
  omega

theorem encode_append_lt {c d : Char} (h : c < d) (xs ys : List UInt8) :
    String.utf8EncodeChar c ++ xs < String.utf8EncodeChar d ++ ys := by
  have hv : c.val.toNat < d.val.toNat := h
  have hd : d.val.toNat < 1114112 := by
    rcases d.valid with hd | ⟨_, hd⟩
    · exact Nat.lt_trans hd (by decide)
    · exact hd
  have hc8 : c.val.toNat / 262144 % 8 = c.val.toNat / 262144 := Nat.mod_eq_of_lt (by omega)
  have hd8 : d.val.toNat / 262144 % 8 = d.val.toNat / 262144 := Nat.mod_eq_of_lt (by omega)
  have hdigits := digits_of_lt hv
  simp only [String.utf8EncodeChar]
  repeat' split
  all_goals simp (disch := omega) only [List.cons_append, List.nil_append, cons_ofNat_lt]
  all_goals omega

theorem flatMap_encode_lt {cs ds : List Char} (h : cs < ds) :
    cs.flatMap String.utf8EncodeChar < ds.flatMap String.utf8EncodeChar := by
  induction cs generalizing ds with
  | nil =>
    cases ds with
    | nil => exact absurd h (List.lt_irrefl _)
    | cons d ds =>
      obtain ⟨b, bs, hb⟩ := List.exists_cons_of_ne_nil (String.utf8EncodeChar_ne_nil (c := d))
      simp only [List.flatMap_nil, List.flatMap_cons, hb, List.cons_append]
      exact List.nil_lt_cons _ _
  | cons c cs ih =>
    cases ds with
    | nil => exact absurd h (List.not_lt_nil _)
    | cons d ds =>
      simp only [List.flatMap_cons]
      rcases List.cons_lt_cons_iff.1 h with hc | ⟨rfl, hcs⟩
      · exact encode_append_lt hc _ _
      · exact List.append_left_lt (ih hcs)

theorem lt_iff_bytes_lt {s t : String} : s < t ↔ bytes s < bytes t := by
  have forward {s t : String} (h : s < t) : bytes s < bytes t := by
    rw [bytes_eq_flatMap, bytes_eq_flatMap]
    exact flatMap_encode_lt h
  constructor
  · exact forward
  · intro h
    by_cases hst : s < t
    · exact hst
    by_cases hts : t < s
    · exact absurd h (List.lt_asymm (forward hts))
    · have he : s = t := String.le_antisymm hts hst
      exact absurd (he ▸ h) (List.lt_irrefl _)

end Text

/-- Names in increasing order of their bytes, without repeats. -/
def Increasing (names : List String) : Prop :=
  names.Pairwise fun m n => Text.bytes m < Text.bytes n

theorem increasing_iff_pairwise {names : List String} :
    Increasing names ↔ names.Pairwise (· < ·) := by
  simp only [Increasing, ← Text.lt_iff_bytes_lt]

theorem mem_insertName {n name : String} {names : List String} :
    n ∈ insertName name names ↔ n = name ∨ n ∈ names := by
  induction names with
  | nil => simp only [insertName, List.mem_cons]
  | cons m names ih =>
    simp only [insertName]
    split
    · exact List.mem_cons
    · split
      next he => simp only [he, List.mem_cons, or_self_left]
      next => simp only [List.mem_cons, ih, or_left_comm]

theorem Increasing.insertName {names : List String} (h : Increasing names) (name : String) :
    Increasing (insertName name names) := by
  rw [increasing_iff_pairwise] at h ⊢
  induction names with
  | nil => exact List.pairwise_singleton _ _
  | cons m names ih =>
    obtain ⟨hm, hn⟩ := List.pairwise_cons.1 h
    simp only [Autodoc.insertName]
    split
    next hlt =>
      refine List.pairwise_cons.2 ⟨?_, h⟩
      intro n hn
      rcases List.mem_cons.1 hn with rfl | hn
      · exact hlt
      · exact String.lt_trans hlt (hm n hn)
    next hlt =>
      split
      · exact h
      next hne =>
        refine List.pairwise_cons.2 ⟨?_, ih hn⟩
        intro n hn
        rcases mem_insertName.1 hn with rfl | hn
        · -- the three ways to compare leave only this one
          by_cases hgt : m < n
          · exact hgt
          · exact absurd (String.le_antisymm hgt hlt) hne
        · exact hm n hn

theorem mem_sortedNames {n : String} {names : List String} :
    n ∈ sortedNames names ↔ n ∈ names := by
  induction names with
  | nil => exact Iff.rfl
  | cons m names ih =>
    rw [sortedNames, List.foldr_cons, ← sortedNames, mem_insertName, ih, List.mem_cons]

theorem sortedNames_increasing (names : List String) : Increasing (sortedNames names) := by
  induction names with
  | nil => exact List.Pairwise.nil
  | cons m names ih => exact ih.insertName m

theorem Increasing.nodup {names : List String} (h : Increasing names) : names.Nodup :=
  (increasing_iff_pairwise.1 h).imp fun hlt => String.ne_of_lt hlt

theorem Increasing.ext {s t : List String} (hs : Increasing s) (ht : Increasing t)
    (h : ∀ n, n ∈ s ↔ n ∈ t) : s = t := by
  have hp : s.Perm t := (List.perm_ext_iff_of_nodup hs.nodup ht.nodup).2 h
  rw [increasing_iff_pairwise] at hs ht
  exact hp.eq_of_pairwise (fun m n _ _ hmn hnm => absurd hnm (String.lt_asymm hmn)) hs ht

theorem sortedNames_congr {s t : List String} (h : ∀ n, n ∈ s ↔ n ∈ t) :
    sortedNames s = sortedNames t := by
  apply (sortedNames_increasing s).ext (sortedNames_increasing t)
  intro n
  rw [mem_sortedNames, mem_sortedNames, h]

theorem Increasing.filter {names : List String} (h : Increasing names) (p : String → Bool) :
    Increasing (names.filter p) :=
  List.Pairwise.filter p h

end Autodoc
