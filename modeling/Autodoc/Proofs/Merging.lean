import Mathlib.Data.List.Basic
import Mathlib.Data.List.Induction
import Autodoc.Proofs.Nicknames

namespace Autodoc

theorem valueAt?_eq_none_iff {k : String} {es : List (String × α)} :
    valueAt? k es = none ↔ k ∉ es.map Prod.fst := by
  induction es with
  | nil => simp [valueAt?]
  | cons e es ih =>
    obtain ⟨k', v⟩ := e
    by_cases h : k' = k
    · simp [valueAt?, h]
    · simp [valueAt?, h, Ne.symm h, ih]

theorem eraseDups_of_nodup {names : List String} (h : names.Nodup) : names.eraseDups = names := by
  induction names with
  | nil => rfl
  | cons name names ih =>
    obtain ⟨hnew, hd⟩ := List.nodup_cons.1 h
    have hrest : names.filter (fun n => !n == name) = names := by
      rw [List.filter_eq_self]
      intro n hn
      have hne : n ≠ name := fun he => hnew (he ▸ hn)
      simp [hne]
    rw [List.eraseDups_cons, hrest, ih hd]

namespace Table

theorem ext_get? {s t : Table α} (hk : s.keys = t.keys) (hv : ∀ k, s.get? k = t.get? k) : s = t := by
  have hentries (t : Table α) : t.keys.filterMap (fun k => (t.get? k).map (k, ·)) = t.entries := by
    have hentry : ∀ e ∈ t.entries, (t.get? e.1).map (e.1, ·) = some e := by
      intro e he
      rw [get?_eq_some_iff.2 he, Option.map_some]
    rw [keys, List.filterMap_map]
    exact (List.filterMap_congr hentry).trans List.filterMap_some
  apply ext
  rw [← hentries s, ← hentries t, hk, funext hv]

theorem keys_insert (t : Table α) (k : String) (v : α) :
    (t.insert k v).keys = if k ∈ t.keys then t.keys else t.keys ++ [k] :=
  map_fst_putEntry k v t.entries

theorem keys_insertAll (t : Table α) {es : List (String × α)} (h : (es.map Prod.fst).Nodup) :
    (t.insertAll es).keys = t.keys ++ (es.map Prod.fst).filter (· ∉ t.keys) := by
  induction es generalizing t with
  | nil => exact (List.append_nil _).symm
  | cons e es ih =>
    obtain ⟨hnew, hes⟩ := List.nodup_cons.1 h
    rw [insertAll, List.foldl_cons, ← insertAll, ih _ hes, keys_insert, List.map_cons]
    by_cases hk : e.1 ∈ t.keys
    · rw [if_pos hk, List.filter_cons_of_neg (by simpa using hk)]
    · have hrest : (es.map Prod.fst).filter (· ∉ t.keys ++ [e.1]) = (es.map Prod.fst).filter (· ∉ t.keys) := by
        apply List.filter_congr
        intro k hm
        have hne : k ≠ e.1 := fun he => hnew (he ▸ hm)
        simp [hne]
      rw [if_neg hk, List.filter_cons_of_pos (by simpa using hk), hrest, List.append_assoc, List.singleton_append]

theorem get?_insertAll (t : Table α) {es : List (String × α)} (h : (es.map Prod.fst).Nodup) (k : String) :
    (t.insertAll es).get? k = (valueAt? k es).or (t.get? k) := by
  induction es generalizing t with
  | nil => rfl
  | cons e es ih =>
    obtain ⟨hnew, hes⟩ := List.nodup_cons.1 h
    rw [insertAll, List.foldl_cons, ← insertAll, ih _ hes, get?_insert, valueAt?]
    by_cases hk : e.1 = k
    · have hnone : valueAt? k es = none := valueAt?_eq_none_iff.2 (hk ▸ hnew)
      rw [if_pos hk.symm, if_pos hk, hnone]
      rfl
    · rw [if_neg (Ne.symm hk), if_neg hk]

theorem keys_merge (s t : Table α) : (s.merge t).keys = s.keys ++ t.keys.filter (· ∉ s.keys) :=
  keys_insertAll s t.distinct

theorem get?_merge (s t : Table α) (k : String) : (s.merge t).get? k = (t.get? k).or (s.get? k) :=
  get?_insertAll s t.distinct k

theorem merge_assoc (s t u : Table α) : (s.merge t).merge u = s.merge (t.merge u) := by
  apply ext_get?
  · have hnew : u.keys.filter (· ∉ s.keys ++ t.keys.filter (· ∉ s.keys)) =
        (u.keys.filter (· ∉ t.keys)).filter (· ∉ s.keys) := by
      rw [List.filter_filter]
      apply List.filter_congr
      intro k _
      by_cases hs : k ∈ s.keys <;> simp [hs]
    rw [keys_merge, keys_merge, keys_merge, keys_merge, hnew, List.filter_append, List.append_assoc]
  · intro k
    rw [get?_merge, get?_merge, get?_merge, get?_merge, Option.or_assoc]

theorem merge_empty (t : Table α) : t.merge {} = t := rfl

theorem empty_merge (t : Table α) : ({} : Table α).merge t = t := by
  apply ext_get?
  · rw [keys_merge]
    exact List.filter_eq_self.2 fun _ _ => rfl
  · intro k
    rw [get?_merge]
    exact Option.or_none

/-- Of tables that are merged in turn, each key stands where it first came. -/
theorem keys_foldl_merge (ts : List (Table α)) : (ts.foldl merge {}).keys = (ts.flatMap keys).eraseDups := by
  induction ts using List.reverseRecOn with
  | nil => rfl
  | append_singleton ts t ih =>
    -- of the last table only the keys that are new add to the others
    have hnew : t.keys.filter (· ∉ (ts.flatMap keys).eraseDups) = t.keys.removeAll (ts.flatMap keys) := by
      apply List.filter_congr
      intro k _
      simp [-List.mem_flatMap, List.mem_eraseDups]
    have hd : (t.keys.removeAll (ts.flatMap keys)).Nodup := t.distinct.filter _
    rw [List.foldl_append, List.foldl_cons, List.foldl_nil, keys_merge, ih, hnew, List.flatMap_append,
      List.flatMap_singleton, List.eraseDups_append, eraseDups_of_nodup hd]

/-- Of tables that are merged in turn, the last that has a key gives the value. -/
theorem get?_foldl_merge (ts : List (Table α)) (k : String) :
    (ts.foldl merge {}).get? k = ts.reverse.findSome? (·.get? k) := by
  induction ts using List.reverseRecOn with
  | nil => rfl
  | append_singleton ts t ih =>
    rw [List.foldl_append, List.foldl_cons, List.foldl_nil, get?_merge, ih, List.reverse_append,
      List.reverse_singleton, List.singleton_append, List.findSome?_cons]
    cases t.get? k <;> rfl

end Table

namespace Snapshot

theorem merge_assoc (a b c : Snapshot) : (a.merge b).merge c = a.merge (b.merge c) := by
  simp only [merge, List.append_assoc, Table.merge_assoc]

theorem merge_empty (s : Snapshot) : s.merge empty = s := by
  simp only [merge, empty, List.append_nil, Table.merge_empty]

theorem empty_merge (s : Snapshot) : empty.merge s = s := by
  simp only [merge, empty, List.nil_append, Table.empty_merge]

instance : Std.Associative merge := ⟨merge_assoc⟩

theorem mergeAll_cons (s : Snapshot) (ss : List Snapshot) : mergeAll (s :: ss) = s.merge (mergeAll ss) := by
  have hshift : ss.foldl merge (s.merge empty) = s.merge (ss.foldl merge empty) := List.foldl_assoc
  rw [mergeAll, mergeAll, List.foldl_cons, empty_merge, ← hshift, merge_empty]

theorem mergeAll_append (ss ts : List Snapshot) : mergeAll (ss ++ ts) = (mergeAll ss).merge (mergeAll ts) := by
  induction ss with
  | nil => exact (empty_merge _).symm
  | cons s ss ih => rw [List.cons_append, mergeAll_cons, mergeAll_cons, ih, merge_assoc]

theorem mergeAll_flatten (groups : List (List Snapshot)) :
    mergeAll groups.flatten = mergeAll (groups.map mergeAll) := by
  induction groups with
  | nil => rfl
  | cons group groups ih => rw [List.flatten_cons, mergeAll_append, List.map_cons, mergeAll_cons, ih]

section

variable (table : Snapshot → Table α) (hempty : table empty = {})
  (hmerge : ∀ s t, table (s.merge t) = (table s).merge (table t)) (ss : List Snapshot)

include hempty hmerge

theorem table_mergeAll : table (mergeAll ss) = (ss.map table).foldl .merge {} := by
  rw [mergeAll, List.foldl_map, ← hempty]
  exact (List.foldl_hom table fun s t => (hmerge s t).symm).symm

theorem keys_mergeAll : (table (mergeAll ss)).keys = (ss.flatMap fun s => (table s).keys).eraseDups := by
  rw [table_mergeAll table hempty hmerge, Table.keys_foldl_merge, List.flatMap_map]

theorem get?_mergeAll (k : String) :
    (table (mergeAll ss)).get? k = ss.reverse.findSome? fun s => (table s).get? k := by
  rw [table_mergeAll table hempty hmerge, Table.get?_foldl_merge, ← List.map_reverse, List.findSome?_map]
  rfl

end

/-- Operations and enums stand where the first document that has them puts them, as the last one records them. -/
structure Gathers (s : Snapshot) (ss : List Snapshot) : Prop where
  operationKeys : s.operations.keys = (ss.flatMap (·.operations.keys)).eraseDups
  operations : ∀ nickname, s.operations.get? nickname = ss.reverse.findSome? (·.operations.get? nickname)
  enumKeys : s.enums.keys = (ss.flatMap (·.enums.keys)).eraseDups
  enums : ∀ type, s.enums.get? type = ss.reverse.findSome? (·.enums.get? type)

theorem gathers_mergeAll (ss : List Snapshot) : (mergeAll ss).Gathers ss where
  operationKeys := keys_mergeAll operations rfl (fun _ _ => rfl) ss
  operations := get?_mergeAll operations rfl (fun _ _ => rfl) ss
  enumKeys := keys_mergeAll enums rfl (fun _ _ => rfl) ss
  enums := get?_mergeAll enums rfl (fun _ _ => rfl) ss

/-- Merging documents is associative, and the empty document is neutral. So documents make the same registry or the
same error if consecutive ones are merged first, whatever the groups; and an operation or an enum stands where the
first document that has it puts it, as the last one records it, which is what the registry answers with. -/
theorem merge_laws :
    (∀ a b c : Snapshot, (a.merge b).merge c = a.merge (b.merge c)) ∧
    (∀ s : Snapshot, s.merge empty = s ∧ empty.merge s = s) ∧
    (∀ groups : List (List Snapshot),
      Registry.ofDocuments groups.flatten = Registry.ofDocuments (groups.map mergeAll)) ∧
    (∀ ss : List Snapshot, (mergeAll ss).Gathers ss) ∧
    ∀ (ss : List Snapshot) (r : Registry), Registry.ofDocuments ss = .ok r → r.snapshot.Gathers ss ∧
      (∀ nickname op, r.operation nickname = .ok op →
        ∃ o, ss.reverse.findSome? (·.operations.get? nickname) = some o ∧
          op = ⟨nickname, o.description, o.deprecated, o.arguments.map r.described⟩) ∧
      ∀ type values, r.enumValues type = .ok values →
        values = (ss.reverse.findSome? (·.enums.get? type)).getD [] := by
  refine ⟨merge_assoc, fun s => ⟨merge_empty s, empty_merge s⟩, fun groups => ?_, gathers_mergeAll, fun ss r hr => ?_⟩
  · rw [Registry.ofDocuments, Registry.ofDocuments, mergeAll_flatten]
  · have hgathers : r.snapshot.Gathers ss := by
      rw [(Registry.ofSnapshot_eq_ok_iff.1 hr).1]
      exact gathers_mergeAll ss
    refine ⟨hgathers, fun nickname op hop => ?_, fun type values hvalues => ?_⟩
    · obtain ⟨_, o, ho, hmade⟩ := Registry.operation_eq_ok_iff.1 hop
      exact ⟨o, hgathers.operations nickname ▸ ho, hmade⟩
    · rw [Registry.enumValues, hgathers.enums] at hvalues
      split at hvalues <;> cases hvalues
      rfl

def older : Snapshot where
  types := [⟨"VipsInvert", some "GObject", some "invert", false, false⟩, ⟨"VipsAngle", some "GEnum", none, false, false⟩]
  operations := .ofList [("invert", ⟨"negate", false, []⟩)]
  enums := .ofList [("VipsAngle", ["d0"])]
  properties := []
  lazyTypes := []

/-- Records anew what an older document has, after an operation of its own. -/
def newer : Snapshot where
  types := [⟨"VipsAvg", some "GObject", some "avg", false, false⟩]
  operations := .ofList [("avg", ⟨"find image average", false, []⟩), ("invert", ⟨"invert an image", true, []⟩)]
  enums := .ofList [("VipsAngle", ["d0", "d90"])]
  properties := []
  lazyTypes := []

theorem merge_laws_newer : ∃ r, Registry.ofDocuments [older, newer] = .ok r ∧
    r.snapshot.operations.keys = ["invert", "avg"] ∧
    r.operation "invert" = .ok ⟨"invert", "invert an image", true, []⟩ ∧
    r.enumValues "VipsAngle" = .ok ["d0", "d90"] := by
  obtain ⟨_, _, _, _, hlast⟩ := merge_laws
  let r : Registry := ⟨mergeAll [older, newer], by decide, []⟩
  have hr : Registry.ofDocuments [older, newer] = .ok r := Registry.ofSnapshot_eq_ok_iff.2 ⟨rfl, rfl⟩
  obtain ⟨hgathers, hoperation, henum⟩ := hlast _ r hr
  obtain ⟨op, hop⟩ : ∃ op, r.operation "invert" = .ok op := ⟨_, rfl⟩
  obtain ⟨values, hvalues⟩ : ∃ values, r.enumValues "VipsAngle" = .ok values := ⟨_, rfl⟩
  obtain ⟨o, ho, rfl⟩ := hoperation _ _ hop
  obtain rfl := henum _ _ hvalues
  cases ho
  exact ⟨r, hr, hgathers.operationKeys.trans (by decide), hop, hvalues⟩

end Snapshot

end Autodoc
