import Autodoc.Proofs.Layout

namespace Autodoc

/-- Where climbing a chain leads, as the table's own climb reports it. -/
def Snapshot.Chain.outcome (start : String) : Snapshot.Chain → Indexed SnapshotError Kind
  | .root k => pure k
  | .loose => pure .unknown
  | .endless => throw (.cycle start)

namespace Snapshot

variable {s : Snapshot} {ts rest : List TypeRecord} {t : TypeRecord} {done : List String} {name : String}

theorem getElem?_map_typeNames (h : name ∈ s.typeNames) (f : String → α) :
    (s.typeNames.map f)[s.place name]? = some (f name) := by
  rw [List.getElem?_map, getElem?_place h, Option.map_some]

theorem modify_place (hd : (s.types.map (·.name)).Nodup) (h : name ∈ s.typeNames) (f : String → α) (g : α → α) :
    (Indexed.modify (s.typeNames.map f) (s.place name) g : Indexed ε (List α)) =
      pure (s.typeNames.map (Function.update f name (g (f name)))) := by
  have hlt : s.place name < (s.typeNames.map f).length := by
    rw [List.length_map]
    exact place_lt h
  rw [Indexed.modify_eq hlt, place, modify_map_idxOf (nodup_typeNames hd) h]

/-- A type when the first records are linked to their parents. -/
def linked (s : Snapshot) (ts : List TypeRecord) (name : String) : TypeNode :=
  { s.entry name with
    parent := ((s.withTypes ts).parent? name).map s.place
    children := (ts.filter (·.parent = some name)).map fun t => s.place t.name }

theorem parent?_withTypes_append (hnew : t.name ∉ ts.map (·.name)) :
    (s.withTypes (ts ++ [t])).parent? name = if name = t.name then t.parent else (s.withTypes ts).parent? name := by
  rw [parent?, parent?, record?_withTypes_append]
  by_cases he : name = t.name
  · subst he
    rw [if_pos rfl, if_pos rfl, record?_withTypes_eq_none hnew]
    rfl
  · rw [if_neg he, if_neg (Ne.symm he), Option.or_none]

theorem update_linked (hnew : t.name ∉ ts.map (·.name)) {parent : String} (hp : t.parent = some parent) :
    let child := Function.update (s.linked ts) t.name { s.linked ts t.name with parent := some (s.place parent) }
    Function.update child parent
      { child parent with children := (child parent).children ++ [s.place t.name] } = s.linked (ts ++ [t]) := by
  intro child
  funext name
  have hchild : child name = { s.linked ts name with
      parent := ((s.withTypes (ts ++ [t])).parent? name).map s.place } := by
    simp only [child, Function.update_apply, parent?_withTypes_append hnew]
    by_cases he : name = t.name
    · rw [if_pos he, if_pos he, hp, he]
      rfl
    · rw [if_neg he, if_neg he]
      rfl
  rw [Function.update_apply]
  by_cases he : name = parent
  · subst he
    rw [if_pos rfl, hchild]
    simp [linked, hp]
  · have hother : ¬ t.parent = some name := fun hc => he (Option.some.inj (hc.symm.trans hp))
    rw [if_neg he, hchild]
    simp [linked, hother]

theorem linked_of_no_parent (hnew : t.name ∉ ts.map (·.name)) (hp : t.parent = none) :
    s.linked (ts ++ [t]) = s.linked ts := by
  funext name
  have hparent : (s.withTypes (ts ++ [t])).parent? name = (s.withTypes ts).parent? name := by
    rw [parent?_withTypes_append hnew]
    by_cases he : name = t.name
    · rw [if_pos he, hp, parent?, he, record?_withTypes_eq_none hnew]
      rfl
    · rw [if_neg he]
  simp [linked, hparent, hp]

variable {byName : Table Nat}

theorem get?_of_places (h : Places byName s.typeNames) :
    byName.get? name = if s.isKnown name then some (s.place name) else none := by
  simp only [h name, mem_typeNames_iff_isKnown, place]

theorem not_mem_of_types_eq (hd : (s.types.map (·.name)).Nodup) (hs : s.types = ts ++ t :: rest) :
    t.name ∉ ts.map (·.name) := by
  rw [hs, List.map_append, List.nodup_append] at hd
  exact fun hc => hd.2.2 t.name hc t.name List.mem_cons_self rfl

theorem gives_linked (hd : (s.types.map (·.name)).Nodup) (hs : s.types = ts ++ t :: rest)
    (hplaces : Places byName s.typeNames) {parent : String} (hp : t.parent = some parent) :
    (TypeTable.link byName (s.typeNames.map (s.linked ts)) (s.place t.name, parent)).Gives
      (if s.isKnown parent then none else some (.unknownParent t.name parent))
      (· = s.typeNames.map (s.linked (ts ++ [t]))) := by
  have hm : t.name ∈ s.typeNames := mem_typeNames_of_mem (hs ▸ List.mem_append_right _ List.mem_cons_self)
  have hnew : t.name ∉ ts.map (·.name) := not_mem_of_types_eq hd hs
  simp only [TypeTable.link, get?_of_places hplaces]
  by_cases hk : s.isKnown parent
  · simp only [if_pos hk, modify_place hd hm, modify_place hd (mem_typeNames_iff_isKnown.2 hk), pure_bind]
    exact Indexed.gives_pure (congrArg s.typeNames.map (update_linked hnew hp))
  · simp only [if_neg hk, Indexed.get_eq (getElem?_map_typeNames hm _), pure_bind]
    rfl

theorem gives_all_linked (hd : (s.types.map (·.name)).Nodup) (hplaces : Places byName s.typeNames) :
    (s.links.foldlM (TypeTable.link byName) (s.typeNames.map s.entry)).Gives s.unknownParent?
      (· = s.typeNames.map (s.linked s.types)) := by
  rw [links, List.foldlM_filterMap, unknownParent?]
  refine Indexed.gives_foldlM (I := fun ts nodes => nodes = s.typeNames.map (s.linked ts)) ?_ rfl
  rintro ts t rest _ hs rfl
  cases hp : t.parent with
  | none =>
    have hnew : t.name ∉ ts.map (·.name) := not_mem_of_types_eq hd hs
    exact Indexed.gives_pure (congrArg s.typeNames.map (linked_of_no_parent hnew hp).symm)
  | some parent => exact gives_linked hd hs hplaces hp

/-- A type when all types are linked and the kinds of some are settled. -/
def settled (s : Snapshot) (done : List String) (name : String) : TypeNode :=
  { s.linked s.types name with kind := if name ∈ done then s.kindOf name else (Kind.ofRoot? name).getD .unknown }

theorem mem_typeNames_of_parent? (hparents : ∀ t ∈ s.types, ∀ parent, t.parent = some parent → s.isKnown parent = true)
    {parent : String} (hp : s.parent? name = some parent) : parent ∈ s.typeNames := by
  obtain ⟨t, ht, hparent⟩ := Option.bind_eq_some_iff.1 hp
  exact mem_typeNames_iff_isKnown.2 (hparents t (mem_of_record?_eq_some ht).1 parent hparent)

/-- A root keeps its kind while others are settled, and no climb goes past it. -/
theorem climb_at_root {root : String} {k : Kind} (hr : Kind.ofRoot? root = some k)
    (hdone : ∀ name ∈ done, ¬ Kind.IsRoot name) (start fuel : Nat) :
    TypeTable.climb (s.typeNames.map (s.settled done)) start fuel (some (s.place root)) = pure k := by
  have hroot : Kind.IsRoot root := by rw [Kind.IsRoot, hr]; rfl
  have hnode := getElem?_map_typeNames (mem_typeNames_of_isRoot (s := s) hroot) (s.settled done)
  have hkind : (s.settled done root).kind = k := by
    rw [settled, if_neg fun hc => hdone root hc hroot, hr, Option.getD_some]
  cases fuel <;>
    rw [TypeTable.climb, if_pos (place_lt_rootCount_iff.2 hroot), Indexed.get_eq hnode, pure_bind, hkind]

/-- Climbing the links of the table is climbing the parents of the records. -/
theorem climb_settled (hparents : ∀ t ∈ s.types, ∀ parent, t.parent = some parent → s.isKnown parent = true)
    {start : String} (hstart : start ∈ s.typeNames) (hdone : ∀ name ∈ done, ¬ Kind.IsRoot name) (fuel : Nat)
    (name : String) :
    TypeTable.climb (s.typeNames.map (s.settled done)) (s.place start) fuel ((s.parent? name).map s.place) =
      (s.climb (fuel + 1) name).outcome start := by
  -- the table counts the types that are no roots, and so it is one step behind
  induction fuel generalizing name with
  | zero =>
    cases hp : s.parent? name with
    | none => simp only [climb, hp]; rfl
    | some parent =>
      rw [Option.map_some]
      cases hr : Kind.ofRoot? parent with
      | some k => simp only [climb_at_root hr hdone, climb, hp, hr, Chain.outcome]
      | none =>
        have hnot : ¬ s.place parent < rootCount := by simp [place_lt_rootCount_iff, Kind.IsRoot, hr]
        rw [TypeTable.climb, if_neg hnot, Indexed.get_eq (getElem?_map_typeNames hstart _), pure_bind]
        simp only [climb, hp, hr]
        rfl
  | succ fuel ih =>
    cases hp : s.parent? name with
    | none => simp only [climb, hp]; rfl
    | some parent =>
      have hm := mem_typeNames_of_parent? hparents hp
      rw [Option.map_some]
      cases hr : Kind.ofRoot? parent with
      | some k => simp only [climb_at_root hr hdone, climb, hp, hr, Chain.outcome]
      | none =>
        have hnot : ¬ s.place parent < rootCount := by simp [place_lt_rootCount_iff, Kind.IsRoot, hr]
        have hclimb : s.climb (fuel + 1 + 1) name = s.climb (fuel + 1) parent := by simp only [climb, hp, hr]
        rw [TypeTable.climb, if_neg hnot, Indexed.get_eq (getElem?_map_typeNames hm _), pure_bind, hclimb]
        exact ih parent

theorem update_settled :
    Function.update (s.settled done) name { s.settled done name with kind := s.kindOf name } =
      s.settled (done ++ [name]) := by
  funext n
  rw [Function.update_apply]
  by_cases he : n = name
  · subst he
    simp [settled]
  · simp [settled, he]

theorem not_isRoot_of_mem_declared (h : name ∈ s.declared) : ¬ Kind.IsRoot name := by
  rw [Kind.IsRoot, Option.not_isSome_iff_eq_none, ← Option.isNone_iff_eq_none]
  exact (List.mem_filter.1 h).2

theorem gives_kindOf (hr : Kind.ofRoot? name = none) : ((s.chain name).outcome name).Gives
    (if s.chain name = .endless then some (.cycle name) else none) (· = s.kindOf name) := by
  simp only [kindOf, hr]
  cases s.chain name with
  | root k => exact Indexed.gives_pure rfl
  | loose => exact Indexed.gives_pure rfl
  | endless => rfl

theorem gives_settled (hd : (s.types.map (·.name)).Nodup)
    (hparents : ∀ t ∈ s.types, ∀ parent, t.parent = some parent → s.isKnown parent = true)
    (hdone : ∀ name ∈ done, ¬ Kind.IsRoot name) (hname : name ∈ s.declared) :
    (TypeTable.settle (s.typeNames.map (s.settled done)) (s.place name)).Gives
      (if s.chain name = .endless then some (.cycle name) else none)
      (· = s.typeNames.map (s.settled (done ++ [name]))) := by
  have hm : name ∈ s.typeNames := List.mem_append_right _ hname
  have hr : Kind.ofRoot? name = none := Option.not_isSome_iff_eq_none.1 (not_isRoot_of_mem_declared hname)
  have hclimb : TypeTable.climb (s.typeNames.map (s.settled done)) (s.place name)
      (s.typeNames.map (s.settled done)).length (s.settled done name).parent = (s.chain name).outcome name := by
    rw [List.length_map]
    exact climb_settled hparents hm hdone _ name
  have hsettle : ∀ k, k = s.kindOf name → Indexed.Gives (ε := SnapshotError)
      (Indexed.modify (s.typeNames.map (s.settled done)) (s.place name) fun n => { n with kind := k }) none
      (· = s.typeNames.map (s.settled (done ++ [name]))) := by
    rintro _ rfl
    rw [modify_place hd hm, update_settled]
    exact Indexed.gives_pure rfl
  rw [TypeTable.settle, Indexed.get_eq (getElem?_map_typeNames hm _), pure_bind, hclimb]
  exact (gives_kindOf hr).bind_silent hsettle

theorem map_idxOf_self {names : List String} (hd : names.Nodup) :
    names.map (fun name => names.idxOf name) = List.range names.length := by
  apply List.ext_getElem
  · simp
  · intro i hi _
    rw [List.getElem_map, List.getElem_range, hd.idxOf_getElem]

theorem map_place_declared (hd : (s.types.map (·.name)).Nodup) :
    s.declared.map s.place = List.range' rootCount (s.typeNames.length - rootCount) := by
  have hdrop : s.declared = s.typeNames.drop rootCount := by
    rw [typeNames, List.drop_left' (by rw [List.length_map]; rfl)]
  have hplaces : s.typeNames.map s.place = List.range s.typeNames.length := map_idxOf_self (nodup_typeNames hd)
  rw [hdrop, List.map_drop, hplaces, List.range_eq_range', List.drop_range', Nat.mul_one, Nat.zero_add]

/-- What the finished table holds of a type. -/
def node (s : Snapshot) (name : String) : TypeNode := { s.linked s.types name with kind := s.kindOf name }

theorem gives_all_settled (hd : (s.types.map (·.name)).Nodup)
    (hparents : ∀ t ∈ s.types, ∀ parent, t.parent = some parent → s.isKnown parent = true) :
    ((List.range' rootCount (s.typeNames.length - rootCount)).foldlM TypeTable.settle
      (s.typeNames.map (s.linked s.types))).Gives s.cycle? (· = s.typeNames.map s.node) := by
  rw [← map_place_declared hd, List.foldlM_map, cycle?]
  have hstart : s.typeNames.map (s.linked s.types) = s.typeNames.map (s.settled []) := by
    apply List.map_congr_left
    intro name _
    simp [settled, linked, entry, TypeNode.blank]
  have hend : s.typeNames.map (s.settled s.declared) = s.typeNames.map s.node := by
    apply List.map_congr_left
    intro name hm
    by_cases hdeclared : name ∈ s.declared
    · rw [settled, if_pos hdeclared, node]
    · have hroot : (Kind.ofRoot? name).isSome = true :=
        Kind.isSome_ofRoot?_iff.2 ((List.mem_append.1 hm).resolve_right hdeclared)
      obtain ⟨k, hr⟩ := Option.isSome_iff_exists.1 hroot
      rw [settled, if_neg hdeclared, node, kindOf, hr, Option.getD_some]
  rw [hstart, ← hend]
  refine Indexed.gives_foldlM (I := fun done nodes => nodes = s.typeNames.map (s.settled done)) ?_ rfl
  rintro done name rest _ hs rfl
  apply gives_settled hd hparents
  · intro n hn
    exact not_isRoot_of_mem_declared (hs ▸ List.mem_append_left _ hn)
  · exact hs ▸ List.mem_append_right _ List.mem_cons_self

end Snapshot

end Autodoc
