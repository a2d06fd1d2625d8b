import Autodoc.Proofs.Paths

namespace Autodoc.FileTree

variable {t t' t'' : FileTree} {p q : Place} {path dir name : String} {data : ByteArray}

theorem find?_put (hp : p ≠ []) (e : Entry) (q : Place) :
    (t.put p e).find? q = if q = p then some e else t.find? q := by
  have hfilter (hne : q ≠ p) (entries : List (Place × Entry)) :
      (entries.filter (·.1 ≠ p)).lookup q = entries.lookup q := by
    induction entries with
    | nil => rfl
    | cons entry entries ih =>
      obtain ⟨k, v⟩ := entry
      by_cases hk : k = p
      · have hq : (q == k) = false := beq_false_of_ne (hk ▸ hne)
        rw [List.filter_cons_of_neg (by simpa using hk), ih, List.lookup_cons, hq]
      · rw [List.filter_cons_of_pos (by simpa using hk), List.lookup_cons, List.lookup_cons, ih]
  unfold find? put
  by_cases hq : q = p
  · rw [if_neg (by simpa [hq] using hp), if_pos hq, hq, List.lookup_cons_self]
  · have hb : (q == p) = false := beq_false_of_ne hq
    rw [if_neg hq, List.lookup_cons, hb]
    simp only [hfilter hq]

theorem find?_put_self (hp : p ≠ []) (e : Entry) : (t.put p e).find? p = some e := by
  rw [find?_put hp, if_pos rfl]

theorem directory_of_step (h : t.step p name = .ok q) : t.find? p = some .directory := by
  unfold FileTree.step at h
  cases hp : t.find? p with
  | none =>
    rw [hp] at h
    cases h
  | some e =>
    cases e with
    | file data =>
      rw [hp] at h
      cases h
    | directory => rfl

/-- Directories stay, and so do files, but for those with one of the names. -/
structure KeepsBut (names : List String) (t t' : FileTree) : Prop where
  here : t'.here = t.here
  directories : ∀ p, t.find? p = some .directory → t'.find? p = some .directory
  files : ∀ p data, t.find? p = some (.file data) → (∀ name ∈ names, p.getLast? ≠ some name) →
    t'.find? p = some (.file data)

namespace KeepsBut

variable {names more : List String}

theorem refl (t : FileTree) : KeepsBut [] t t := ⟨rfl, fun _ h => h, fun _ _ h _ => h⟩

theorem trans (h : KeepsBut names t t') (h' : KeepsBut more t' t'') : KeepsBut (names ++ more) t t'' where
  here := h'.here.trans h.here
  directories p hp := h'.directories p (h.directories p hp)
  files p data hp hn :=
    h'.files p data (h.files p data hp fun n hm => hn n (List.mem_append_left _ hm))
      fun n hm => hn n (List.mem_append_right _ hm)

theorem weaken (h : KeepsBut names t t') (hs : names ⊆ more) : KeepsBut more t t' :=
  ⟨h.here, h.directories, fun p data hp hn => h.files p data hp fun n hm => hn n (hs hm)⟩

theorem put_directory (h : t.find? p = none) : KeepsBut [] t (t.put p .directory) := by
  have hp : p ≠ [] := by
    rintro rfl
    cases h
  refine ⟨rfl, fun q hq => ?_, fun q data hq _ => ?_⟩
  · rw [find?_put hp, if_neg (by rintro rfl; rw [h] at hq; cases hq), hq]
  · rw [find?_put hp, if_neg (by rintro rfl; rw [h] at hq; cases hq), hq]

theorem put_file (h : t.find? p ≠ some .directory) (hl : p.getLast? = some name) (data : ByteArray) :
    KeepsBut [name] t (t.put p (.file data)) := by
  have hp : p ≠ [] := by
    rintro rfl
    exact h rfl
  refine ⟨rfl, fun q hq => ?_, fun q data' hq hn => ?_⟩
  · rw [find?_put hp, if_neg (by rintro rfl; exact h hq), hq]
  · rw [find?_put hp, if_neg (by rintro rfl; exact hn name List.mem_cons_self hl), hq]

theorem step (h : KeepsBut names t t') (hs : t.step p name = .ok q) : t'.step p name = .ok q := by
  have hd := directory_of_step hs
  simp only [FileTree.step, hd] at hs
  simpa only [FileTree.step, h.directories p hd] using hs

theorem follow (h : KeepsBut names t t') {parts : List String} (hs : parts.foldlM t.step p = .ok q) :
    parts.foldlM t'.step p = .ok q := by
  induction parts generalizing p with
  | nil => exact hs
  | cons part parts ih =>
    rw [List.foldlM_cons] at hs ⊢
    cases hp : t.step p part with
    | error e =>
      rw [hp] at hs
      cases hs
    | ok p' =>
      rw [hp] at hs
      rw [h.step hp]
      exact ih hs

end KeepsBut

theorem resolve_eq_ok_iff : t.resolve path = .ok p ↔ '\x00' ∉ path.toList ∧ path ≠ "" ∧
    path.utf8ByteSize < 4096 ∧ (splitPath path).foldlM t.step (t.start path) = .ok p := by
  unfold resolve
  by_cases hnul : '\x00' ∈ path.toList
  · simp [hnul]
  by_cases hempty : path = ""
  · simp [hempty]
  by_cases hsize : 4096 ≤ path.utf8ByteSize
  · simp [hnul, hempty, hsize, Nat.not_lt.2 hsize]
  · simp [hnul, hempty, hsize, Nat.lt_of_not_le hsize]

theorem KeepsBut.resolve {names : List String} (h : KeepsBut names t t') (hr : t.resolve path = .ok p) :
    t'.resolve path = .ok p := by
  have hstart : t'.start path = t.start path := by rw [start, start, h.here]
  rw [resolve_eq_ok_iff] at hr ⊢
  obtain ⟨hnul, hempty, hsize, hfollow⟩ := hr
  exact ⟨hnul, hempty, hsize, hstart ▸ h.follow hfollow⟩

theorem read_eq_ok_iff :
    t.read path = .ok data ↔ ∃ p, t.resolve path = .ok p ∧ t.find? p = some (.file data) := by
  unfold read
  cases hr : t.resolve path with
  | error e => simp
  | ok p =>
    cases hf : t.find? p with
    | none => simp [hf]
    | some e => cases e <;> simp [hf]

theorem step_plain (hn : PlainName name) (h : t.step p name = .ok q) : q = p ++ [name] := by
  have hd := hn.notDirectory
  simp only [List.mem_cons, List.not_mem_nil, or_false, not_or] at hd
  simp only [FileTree.step, directory_of_step h, hd.1, hd.2.1, hd.2.2, or_self, if_false] at h
  split at h
  · cases h
  · cases h
    rfl

theorem step_empty (h : t.find? p = some .directory) : t.step p "" = .ok p := by
  simp [FileTree.step, h]

theorem follow_append {parts more : List String} (h : (parts ++ more).foldlM t.step p = .ok q) :
    ∃ p', parts.foldlM t.step p = .ok p' ∧ more.foldlM t.step p' = .ok q := by
  rw [List.foldlM_append] at h
  cases hp : parts.foldlM t.step p with
  | error e =>
    rw [hp] at h
    cases h
  | ok p' =>
    rw [hp] at h
    exact ⟨p', rfl, h⟩

theorem follow_singleton (h : [name].foldlM t.step p = .ok q) : t.step p name = .ok q := by
  simpa only [List.foldlM_cons, List.foldlM_nil, bind_pure] using h

theorem resolve_of_append {more : String} (hd : path ≠ "") (h : t.resolve (path ++ more) = .ok p)
    (hq : (splitPath path).foldlM t.step (t.start (path ++ more)) = .ok q) : t.resolve path = .ok q := by
  obtain ⟨hnul, _, hsize, _⟩ := resolve_eq_ok_iff.1 h
  rw [String.toList_append] at hnul
  rw [String.utf8ByteSize_append] at hsize
  rw [start, startsWith_slash_append hd] at hq
  exact resolve_eq_ok_iff.2
    ⟨fun hm => hnul (List.mem_append_left _ hm), hd, Nat.lt_of_le_of_lt (Nat.le_add_right _ _) hsize, hq⟩

theorem resolve_append_slash (hd : path ≠ "") (h : t.resolve (path ++ "/") = .ok p) :
    t.resolve path = .ok p := by
  obtain ⟨_, _, _, hfollow⟩ := resolve_eq_ok_iff.1 h
  rw [splitPath_append_slash] at hfollow
  obtain ⟨q, hq, hlast⟩ := follow_append hfollow
  have hstep := follow_singleton hlast
  rw [step_empty (directory_of_step hstep)] at hstep
  cases hstep
  exact resolve_of_append hd h hq

theorem resolve_withoutSlash (h : t.resolve path = .ok p) : t.resolve (withoutSlash path) = .ok p := by
  rcases eq_withoutSlash path with he | ⟨hne, n, he⟩
  · rwa [he]
  have hslashes : t.resolve (withoutSlash path ++ String.ofList (List.replicate n '/')) = .ok p := he ▸ h
  clear h he
  -- A slash at the end is one more step, and that step stays where it is.
  induction n with
  | zero => simpa using hslashes
  | succ n ih =>
    have hslash : withoutSlash path ++ String.ofList (List.replicate (n + 1) '/') =
        withoutSlash path ++ String.ofList (List.replicate n '/') ++ "/" := by
      apply String.toList_inj.1
      simp [List.replicate_succ']
    rw [hslash] at hslashes
    exact ih (resolve_append_slash (by simp [hne]) hslashes)

/-- A plain name in a directory leads on from where the directory is. -/
theorem resolve_joinPath (hn : PlainName name) (h : t.resolve (joinPath dir name) = .ok p) :
    ∃ q, t.find? q = some .directory ∧ p = q ++ [name] ∧ (dir = "" ∨ t.resolve dir = .ok q) := by
  obtain ⟨_, _, _, hfollow⟩ := resolve_eq_ok_iff.1 h
  by_cases hd : dir = ""
  · rw [hd, joinPath_empty, splitPath_of_noSlash hn.noSlash] at hfollow
    have hstep := follow_singleton hfollow
    exact ⟨_, directory_of_step hstep, step_plain hn hstep, .inl hd⟩
  obtain ⟨d, hj, hslash⟩ := joinPath_eq hd hn.noSlash
  rw [hj] at h hfollow
  rw [splitPath_append, splitPath_of_noSlash hn.noSlash] at hfollow
  obtain ⟨q, hq, hlast⟩ := follow_append hfollow
  have hstep := follow_singleton hlast
  have hdir := directory_of_step hstep
  refine ⟨q, hdir, step_plain hn hstep, .inr ?_⟩
  rcases hslash with rfl | rfl
  · rw [String.append_assoc] at h hq
    exact resolve_of_append hd h hq
  · apply resolve_of_append hd h
    rw [splitPath_append_slash, List.foldlM_append, hq]
    show [""].foldlM t.step q = .ok q
    rw [List.foldlM_cons, step_empty hdir]
    rfl

theorem resolve_here (hn : ShortName name) (hd : t.find? t.here = some .directory) :
    t.resolve name = .ok (t.here ++ [name]) := by
  have hwords := hn.notDirectory
  simp only [List.mem_cons, List.not_mem_nil, or_false, not_or] at hwords
  refine resolve_eq_ok_iff.2 ⟨hn.noNul, hn.ne_empty, Nat.lt_of_le_of_lt hn.short (by decide), ?_⟩
  rw [splitPath_of_noSlash hn.noSlash, start, startsWith_of_noSlash hn.noSlash]
  simp [FileTree.step, hd, hwords, Nat.not_lt.2 hn.short]

theorem getLast?_of_resolve (hn : PlainName name) (h : t.resolve (joinPath dir name) = .ok p) :
    p.getLast? = some name := by
  obtain ⟨q, _, rfl, _⟩ := resolve_joinPath hn h
  exact List.getLast?_concat

end Autodoc.FileTree
