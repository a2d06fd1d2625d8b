import Mathlib.Data.List.DropRight
import Autodoc.FileTree

namespace Autodoc

variable {dir name path : String}

/-- A name without slashes that is no way to say a directory. -/
structure PlainName (name : String) : Prop where
  noSlash : '/' ∉ name.toList
  notDirectory : name ∉ ["", ".", ".."]

/-- A plain name that a directory can hold. -/
structure ShortName (name : String) : Prop extends PlainName name where
  noNul : '\x00' ∉ name.toList
  short : name.utf8ByteSize ≤ 255

instance (name : String) : Decidable (ShortName name) :=
  decidable_of_iff
    ('/' ∉ name.toList ∧ name ∉ ["", ".", ".."] ∧ '\x00' ∉ name.toList ∧ name.utf8ByteSize ≤ 255)
    ⟨fun h => ⟨⟨h.1, h.2.1⟩, h.2.2.1, h.2.2.2⟩, fun h => ⟨h.noSlash, h.notDirectory, h.noNul, h.short⟩⟩

theorem PlainName.ne_empty (h : PlainName name) : name ≠ "" :=
  fun he => h.notDirectory (he ▸ List.mem_cons_self)

theorem splitPath_of_noSlash (h : '/' ∉ name.toList) : splitPath name = [name] := by
  rw [splitPath, List.splitOn_eq_singleton h, List.map_singleton, String.ofList_toList]

theorem splitPath_append (dir name : String) :
    splitPath (dir ++ "/" ++ name) = splitPath dir ++ splitPath name := by
  have hlist : (dir ++ "/" ++ name).toList = dir.toList ++ '/' :: name.toList := by simp
  rw [splitPath, hlist, List.splitOn_append_cons_self, List.map_append, ← splitPath, ← splitPath]

theorem splitPath_append_slash (dir : String) : splitPath (dir ++ "/") = splitPath dir ++ [""] := by
  have h := splitPath_append dir ""
  rwa [String.append_empty] at h

theorem startsWith_slash_append (h : dir ≠ "") (name : String) :
    (dir ++ name).startsWith "/" = dir.startsWith "/" := by
  obtain ⟨c, cs, hc⟩ := List.exists_cons_of_ne_nil (mt String.toList_eq_nil_iff.1 h)
  rw [Bool.eq_iff_iff, String.startsWith_string_iff, String.startsWith_string_iff, String.toList_append, hc]
  simp

theorem startsWith_of_noSlash (h : '/' ∉ name.toList) : name.startsWith "/" = false := by
  rw [String.startsWith_string_eq_false_iff]
  rintro ⟨rest, hrest⟩
  exact h (hrest ▸ List.mem_cons_self)

theorem joinPath_eq (hd : dir ≠ "") (hn : '/' ∉ name.toList) :
    ∃ d, joinPath dir name = d ++ "/" ++ name ∧ (dir = d ∨ dir = d ++ "/") := by
  have hempty : dir.isEmpty = false := by simp [hd]
  unfold joinPath
  rw [startsWith_of_noSlash hn, hempty]
  split
  next h => simp at h
  next =>
    split
    next h =>
      rw [String.endsWith_eq_endsWith_toSlice, String.Slice.endsWith_string_iff, String.copy_toSlice] at h
      obtain ⟨d, hd⟩ := h
      have he : dir = String.ofList d ++ "/" := by
        apply String.toList_inj.1
        rw [String.toList_append, String.toList_ofList, hd]
      exact ⟨String.ofList d, by rw [he], .inr he⟩
    next => exact ⟨dir, rfl, .inl rfl⟩

theorem joinPath_empty (name : String) : joinPath "" name = name := by
  simp [joinPath]

theorem joinPath_append (dir : String) (hn : '/' ∉ name.toList) :
    ∃ before, joinPath dir name = before ++ name := by
  by_cases hd : dir = ""
  · exact ⟨"", by rw [hd, joinPath_empty, String.empty_append]⟩
  · obtain ⟨d, hj, _⟩ := joinPath_eq hd hn
    exact ⟨d ++ "/", hj⟩

theorem splitPath_joinPath (dir : String) (hn : '/' ∉ name.toList) :
    (splitPath (joinPath dir name)).getLast? = some name := by
  by_cases hd : dir = ""
  · rw [hd, joinPath_empty, splitPath_of_noSlash hn]
    rfl
  · obtain ⟨d, hj, _⟩ := joinPath_eq hd hn
    rw [hj, splitPath_append, splitPath_of_noSlash hn, List.getLast?_concat]

namespace FileTree

theorem withoutSlash_eq (path : String) : withoutSlash path =
    if path.toList.rdropWhile (· = '/') = [] then path
    else String.ofList (path.toList.rdropWhile (· = '/')) := by
  simp only [withoutSlash, List.rdropWhile, List.isEmpty_iff, List.reverse_eq_nil_iff]

theorem withoutSlash_of_last (h : path.toList.getLast? ≠ some '/') : withoutSlash path = path := by
  have hdrop : path.toList.rdropWhile (· = '/') = path.toList := by
    rw [List.rdropWhile_eq_self_iff]
    intro hne hlast
    rw [List.getLast?_eq_some_getLast hne] at h
    exact h (congrArg some (of_decide_eq_true hlast))
  rw [withoutSlash_eq, hdrop, String.ofList_toList, ite_self]

theorem withoutSlash_joinPath (dir : String) (h : PlainName name) :
    withoutSlash (joinPath dir name) = joinPath dir name := by
  obtain ⟨before, hj⟩ := joinPath_append dir h.noSlash
  have hne : name.toList ≠ [] := mt String.toList_eq_nil_iff.1 h.ne_empty
  apply withoutSlash_of_last
  rw [hj, String.toList_append, List.getLast?_append, List.getLast?_eq_some_getLast hne, Option.some_or]
  intro he
  exact h.noSlash (Option.some.inj he ▸ List.getLast_mem hne)

theorem endsInName_joinPath (dir : String) (h : PlainName name) : endsInName (joinPath dir name) = true := by
  have hd := h.notDirectory
  rw [endsInName, splitPath_joinPath dir h.noSlash, Option.getD_some, Bool.not_eq_true', List.contains_eq_mem,
    decide_eq_false hd]

theorem eq_withoutSlash (path : String) : withoutSlash path = path ∨
    withoutSlash path ≠ "" ∧ ∃ n, path = withoutSlash path ++ String.ofList (List.replicate n '/') := by
  rw [withoutSlash_eq]
  split
  next => exact .inl rfl
  next h =>
    have hslashes : path.toList.rtakeWhile (· = '/') =
        List.replicate (path.toList.rtakeWhile (· = '/')).length '/' := by
      rw [List.eq_replicate_iff]
      refine ⟨rfl, fun c hc => ?_⟩
      have hc := List.mem_rtakeWhile_imp hc
      simpa only [decide_eq_true_eq] using hc
    refine .inr ⟨fun he => h (by simpa using he), (path.toList.rtakeWhile (· = '/')).length, ?_⟩
    rw [← String.ofList_append, ← hslashes, List.rdropWhile_append_rtakeWhile, String.ofList_toList]

end FileTree

end Autodoc
