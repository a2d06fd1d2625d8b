import Autodoc.Proofs.Linking
import Autodoc.Proofs.Lookups

namespace Autodoc

/-- An entered nickname stays with the first type that carries it. -/
theorem get?_foldl_enterNickname (es : List (TypeNode × Nat)) (byNickname : Table Nat) (nickname : String) :
    (es.foldl TypeTable.enterNickname byNickname).get? nickname =
      (byNickname.get? nickname).or ((es.find? fun e => e.1.nickname = some nickname).map Prod.snd) := by
  induction es generalizing byNickname with
  | nil => simp
  | cons e es ih =>
    rw [List.foldl_cons, ih, TypeTable.enterNickname]
    cases hn : e.1.nickname with
    | none => simp [hn]
    | some n =>
      by_cases he : n = nickname
      · subst he
        cases ht : byNickname.get? n <;> simp [hn, ht, Table.get?_insert]
      · have hne : ¬ nickname = n := fun hc => he hc.symm
        cases ht : (byNickname.get? n).isSome <;> simp [hn, ht, he, hne, Table.get?_insert]

theorem zipIdx_eq_map_idxOf {names : List String} (hd : names.Nodup) :
    names.zipIdx = names.map fun name => (name, names.idxOf name) := by
  apply List.ext_getElem
  · simp
  · intro i hi _
    rw [List.getElem_zipIdx, List.getElem_map, hd.idxOf_getElem, Nat.zero_add]

/-- A table that holds a snapshot in which some types are hidden. -/
structure TypeTable.Represents (t : TypeTable) (s : Snapshot) (hidden : List String) : Prop where
  nodes : t.nodes = s.typeNames.map s.node
  byName : Places t.byName s.typeNames
  byNickname : ∀ nickname, t.byNickname.get? nickname =
    (s.typeNames.find? fun name => (s.node name).nickname = some nickname).map s.place
  operations : t.operations = s.operations
  enums : t.enums = s.enums
  properties : t.properties = s.properties
  mem_hidden : ∀ i, i ∈ t.hidden ↔ ∃ name ∈ hidden, s.place name = i
  known : ∀ name ∈ hidden, name ∈ s.typeNames

namespace Snapshot

variable {s : Snapshot} {byName : Table Nat}

theorem get?_byNickname (hd : (s.types.map (·.name)).Nodup) (nickname : String) :
    ((s.typeNames.map s.node).zipIdx.foldl TypeTable.enterNickname {}).get? nickname =
      (s.typeNames.find? fun name => (s.node name).nickname = some nickname).map s.place := by
  rw [get?_foldl_enterNickname, List.zipIdx_map, zipIdx_eq_map_idxOf (nodup_typeNames hd), List.map_map, List.find?_map,
    Option.map_map]
  rfl

theorem gives_known (h : Places byName s.typeNames) (name : String) (e : SnapshotError) :
    (TypeTable.ensureKnown byName name e).Gives (if s.isKnown name then none else some e) fun _ => True := by
  rw [TypeTable.ensureKnown, get?_of_places h]
  by_cases hk : s.isKnown name
  · rw [if_pos hk, if_pos hk]
    exact Indexed.gives_pure trivial
  · rw [if_neg hk, if_neg hk]
    rfl

theorem gives_hidden (h : Places byName s.typeNames) :
    (s.lazyTypes.foldlM (TypeTable.hide byName) []).Gives s.unknownLazyType?
      fun hidden => (∀ i, i ∈ hidden ↔ ∃ name ∈ s.lazyTypes, s.place name = i) ∧
        ∀ name ∈ s.lazyTypes, name ∈ s.typeNames := by
  rw [unknownLazyType?, map_find?_not]
  refine Indexed.gives_foldlM (I := fun names hidden => (∀ i, i ∈ hidden ↔ ∃ name ∈ names, s.place name = i) ∧
    ∀ name ∈ names, name ∈ s.typeNames) ?_ (by simp)
  rintro names name rest hidden _ ⟨hhidden, hknown⟩
  rw [TypeTable.hide, get?_of_places h]
  by_cases hk : s.isKnown name
  · simp only [if_pos hk]
    apply Indexed.gives_pure
    constructor
    · intro i
      rw [List.mem_insert_iff, hhidden]
      simp [or_comm, or_and_right, exists_or, eq_comm]
    · intro n hn
      rcases List.mem_append.1 hn with hn | hn
      · exact hknown n hn
      · exact List.mem_singleton.1 hn ▸ mem_typeNames_iff_isKnown.2 hk
  · simp only [if_neg hk]
    rfl

theorem gives_arguments (h : Places byName s.typeNames) :
    (s.operations.entries.forM fun (nickname, op) => op.arguments.forM fun a =>
      TypeTable.ensureKnown byName a.type (.unknownFieldType nickname a.name a.type)).Gives
        s.unknownArgumentType? fun _ => True := by
  apply Indexed.gives_forM
  rintro ⟨nickname, op⟩
  exact Indexed.gives_forM (fun a => gives_known h a.type _) op.arguments

theorem gives_properties (h : Places byName s.typeNames) :
    (s.properties.forM fun p =>
      TypeTable.ensureKnown byName p.type (.unknownFieldType "VipsImage" p.name p.type)).Gives
        s.unknownPropertyType? fun _ => True :=
  Indexed.gives_forM (fun p => gives_known h p.type _) s.properties

theorem gives_enums (h : Places byName s.typeNames) :
    (s.enums.keys.forM fun name => TypeTable.ensureKnown byName name (.unknownEnum name)).Gives
      s.unknownEnum? fun _ => True := by
  rw [unknownEnum?, map_find?_not]
  exact Indexed.gives_forM (fun name => gives_known h name _) s.enums.keys

/-- The passes report what is wrong with a snapshot, and else they fill its table. -/
theorem gives_table (s : Snapshot) : (TypeTable.ofSnapshot s).Gives s.defect? (·.Represents s s.lazyTypes) := by
  refine s.gives_drafted.bind fun hnames d hd => ?_
  have hdistinct := duplicate?_eq_none_iff.1 hnames
  rw [hd.nodes, hd.links]
  refine (gives_all_linked hdistinct hd.byName).bind fun hparents nodes hnodes => ?_
  rw [hnodes, List.length_map]
  refine (gives_all_settled hdistinct (unknownParent?_eq_none_iff.1 hparents)).bind fun _ nodes hnodes => ?_
  rw [hnodes]
  refine (gives_arguments hd.byName).bind fun _ _ _ => ?_
  refine (gives_properties hd.byName).bind fun _ _ _ => ?_
  refine (gives_enums hd.byName).bind fun _ _ _ => ?_
  refine (gives_hidden hd.byName).bind_silent ?_
  rintro hidden ⟨hhidden, hknown⟩
  apply Indexed.gives_pure
  exact ⟨rfl, hd.byName, get?_byNickname hdistinct, rfl, rfl, rfl, hhidden, hknown⟩

end Snapshot

/-- Filling the table turns down the snapshots that checking them does, with the same report. -/
theorem TypeTable.ofSnapshot_eq_throw_iff {s : Snapshot} {e : SnapshotError} :
    ofSnapshot s = throw e ↔ Registry.ofSnapshot s = .error e := by
  have hgives := s.gives_table
  rw [Registry.ofSnapshot_eq_error_iff]
  cases hdefect : s.defect? with
  | some e' =>
    rw [hdefect] at hgives
    rw [show ofSnapshot s = throw e' from hgives, Option.some.injEq]
    constructor
    · intro h
      exact Except.error.inj (Option.some.inj h)
    · rintro rfl
      rfl
  | none =>
    rw [hdefect] at hgives
    obtain ⟨t, ht, _⟩ := hgives
    rw [ht]
    constructor
    · intro h
      cases Option.some.inj h
    · intro h
      cases h

end Autodoc
