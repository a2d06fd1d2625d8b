import Autodoc.Proofs.Inheritance
import Autodoc.Proofs.Session
import Autodoc.Proofs.TypeTable

namespace Autodoc

namespace TypeTable

/-- What the table of a snapshot keeps to, whatever is hidden. -/
structure Sound (t : TypeTable) (s : Snapshot) : Prop where
  byName_lt : ∀ name i, t.byName.get? name = some i → i < t.nodes.length
  byNickname_lt : ∀ nickname i, t.byNickname.get? nickname = some i → i < t.nodes.length
  parent_lt : ∀ n ∈ t.nodes, ∀ i, n.parent = some i → i < t.nodes.length
  children_lt : ∀ n ∈ t.nodes, ∀ i ∈ n.children, i < t.nodes.length
  hidden_lt : ∀ i ∈ t.hidden, i < t.nodes.length
  byName_iff : ∀ name i, t.byName.get? name = some i ↔ ∃ n, t.nodes[i]? = some n ∧ n.name = name
  byName_inj : ∀ m n i, t.byName.get? m = some i → t.byName.get? n = some i → m = n
  count_children : ∀ (c p : Nat) (child parent : TypeNode), t.nodes[c]? = some child → t.nodes[p]? = some parent →
    parent.children.count c = if child.parent = some p then 1 else 0
  parent_iff : ∀ (c p : Nat) (child parent : TypeNode), t.nodes[c]? = some child → t.nodes[p]? = some parent →
    (child.parent = some p ↔ ∃ r ∈ s.types, r.name = child.name ∧ r.parent = some parent.name)
  children_order : ∀ (p : Nat) (parent : TypeNode), t.nodes[p]? = some parent →
    parent.children.map (fun c => t.nodes[c]?.map (·.name)) =
      (s.types.filter (·.parent = some parent.name)).map fun r => some r.name
  roots : (t.nodes.take 13).map (fun n => (n.name, n.kind)) = Kind.roots
  root_parent : ∀ i < 13, ∀ root : TypeNode, t.nodes[i]? = some root → root.parent.isSome →
    ∃ r ∈ s.types, r.name = root.name ∧ r.parent.isSome

variable {t : TypeTable} {s : Snapshot} {hidden : List String}

namespace Represents

theorem length_nodes (h : t.Represents s hidden) : t.nodes.length = s.typeNames.length := by
  rw [h.nodes, List.length_map]

theorem get?_byName (h : t.Represents s hidden) {name : String} {i : Nat} :
    t.byName.get? name = some i ↔ name ∈ s.typeNames ∧ s.place name = i := by
  rw [h.byName name]
  by_cases hm : name ∈ s.typeNames
  · simp [hm, Snapshot.place]
  · simp [hm]

theorem getElem?_nodes (h : t.Represents s hidden) (hd : (s.types.map (·.name)).Nodup) {i : Nat} {n : TypeNode} :
    t.nodes[i]? = some n ↔ ∃ name ∈ s.typeNames, s.place name = i ∧ s.node name = n := by
  rw [h.nodes, List.getElem?_map, Option.map_eq_some_iff]
  simp only [Snapshot.typeNames_getElem?_iff hd, and_assoc]

theorem exists_node (h : t.Represents s hidden) {n : TypeNode} (hn : n ∈ t.nodes) :
    ∃ name ∈ s.typeNames, s.node name = n := by
  rw [h.nodes] at hn
  exact List.mem_map.1 hn

end Represents

end TypeTable

namespace Snapshot

variable {s : Snapshot}

theorem parent_node_eq_some_iff (hs : s.WellFormed) {child parent : String} (hp : parent ∈ s.typeNames) :
    (s.node child).parent = some (s.place parent) ↔ s.ParentOf parent child := by
  have hnode : (s.node child).parent = (s.parent? child).map s.place := rfl
  rw [hnode, Option.map_eq_some_iff, ← parent?_eq_some_iff hs.distinct]
  constructor
  · rintro ⟨other, hother, hplace⟩
    rwa [← place_inj (mem_typeNames_of_parent? hs.parents hother) hp hplace]
  · intro h
    exact ⟨parent, h, rfl⟩

theorem mem_types_of_mem_children {name : String} {r : TypeRecord} (h : r ∈ s.types.filter (·.parent = some name)) :
    r.name ∈ s.typeNames := mem_typeNames_of_mem (List.mem_of_mem_filter h)

theorem children_node (name : String) :
    (s.node name).children = (s.types.filter (·.parent = some name)).map fun r => s.place r.name := rfl

theorem nodup_children_node (hd : (s.types.map (·.name)).Nodup) (name : String) : (s.node name).children.Nodup := by
  have hrecords : s.types.Pairwise fun r u => r.name ≠ u.name := List.pairwise_map.1 hd
  rw [children_node, List.Nodup, List.pairwise_map]
  refine (hrecords.filter _).imp_of_mem fun hr hu hne he => hne ?_
  exact place_inj (mem_types_of_mem_children hr) (mem_types_of_mem_children hu) he

theorem place_mem_children_iff {child name : String} (hc : child ∈ s.typeNames) :
    s.place child ∈ (s.node name).children ↔ s.ParentOf name child := by
  rw [children_node, List.mem_map]
  constructor
  · rintro ⟨r, hr, hplace⟩
    obtain ⟨hr', hparent⟩ := List.mem_filter.1 hr
    exact ⟨r, hr', place_inj (mem_types_of_mem_children hr) hc hplace, of_decide_eq_true hparent⟩
  · rintro ⟨r, hr, rfl, hparent⟩
    exact ⟨r, List.mem_filter.2 ⟨hr, decide_eq_true hparent⟩, rfl⟩

end Snapshot

namespace TypeTable

variable {t : TypeTable} {s : Snapshot} {hidden : List String}

theorem Represents.sound (h : t.Represents s hidden) (hs : s.WellFormed) : t.Sound s where
  byName_lt name i hi := by
    obtain ⟨hm, rfl⟩ := h.get?_byName.1 hi
    exact h.length_nodes ▸ Snapshot.place_lt hm
  byNickname_lt nickname i hi := by
    rw [h.byNickname] at hi
    obtain ⟨name, hfirst, rfl⟩ := Option.map_eq_some_iff.1 hi
    exact h.length_nodes ▸ Snapshot.place_lt (List.mem_of_find?_eq_some hfirst)
  parent_lt n hn i hi := by
    obtain ⟨name, _, rfl⟩ := h.exists_node hn
    obtain ⟨parent, hparent, rfl⟩ := Option.map_eq_some_iff.1 hi
    exact h.length_nodes ▸ Snapshot.place_lt (Snapshot.mem_typeNames_of_parent? hs.parents hparent)
  children_lt n hn i hi := by
    obtain ⟨name, _, rfl⟩ := h.exists_node hn
    obtain ⟨r, hr, rfl⟩ := List.mem_map.1 hi
    exact h.length_nodes ▸ Snapshot.place_lt (Snapshot.mem_types_of_mem_children hr)
  hidden_lt i hi := by
    obtain ⟨name, hname, rfl⟩ := (h.mem_hidden i).1 hi
    exact h.length_nodes ▸ Snapshot.place_lt (h.known name hname)
  byName_iff name i := by
    rw [h.get?_byName]
    simp only [h.getElem?_nodes hs.distinct]
    constructor
    · rintro ⟨hm, hplace⟩
      exact ⟨s.node name, ⟨name, hm, hplace, rfl⟩, rfl⟩
    · rintro ⟨_, ⟨other, hm, hplace, rfl⟩, rfl⟩
      exact ⟨hm, hplace⟩
  byName_inj m n i hm hn := by
    obtain ⟨hmknown, hmplace⟩ := h.get?_byName.1 hm
    obtain ⟨hnknown, hnplace⟩ := h.get?_byName.1 hn
    exact Snapshot.place_inj hmknown hnknown (hmplace.trans hnplace.symm)
  count_children c p child parent hc hp := by
    obtain ⟨cn, hcm, rfl, rfl⟩ := (h.getElem?_nodes hs.distinct).1 hc
    obtain ⟨pn, hpm, rfl, rfl⟩ := (h.getElem?_nodes hs.distinct).1 hp
    rw [(Snapshot.nodup_children_node hs.distinct pn).count]
    have hiff := (Snapshot.place_mem_children_iff hcm).trans (Snapshot.parent_node_eq_some_iff hs hpm).symm
    simp only [hiff]
  parent_iff c p child parent hc hp := by
    obtain ⟨cn, hcm, rfl, rfl⟩ := (h.getElem?_nodes hs.distinct).1 hc
    obtain ⟨pn, hpm, rfl, rfl⟩ := (h.getElem?_nodes hs.distinct).1 hp
    exact Snapshot.parent_node_eq_some_iff hs hpm
  children_order p parent hp := by
    obtain ⟨pn, _, rfl, rfl⟩ := (h.getElem?_nodes hs.distinct).1 hp
    rw [Snapshot.children_node, List.map_map]
    apply List.map_congr_left
    intro r hr
    have hnode := (h.getElem?_nodes hs.distinct).2 ⟨r.name, Snapshot.mem_types_of_mem_children hr, rfl, rfl⟩
    rw [Function.comp_apply, hnode]
    rfl
  roots := by
    have htake : s.typeNames.take 13 = Kind.roots.map Prod.fst := List.take_left' (by rw [List.length_map]; rfl)
    have hroot : ∀ e ∈ Kind.roots, Kind.ofRoot? e.1 = some e.2 := by decide
    rw [h.nodes, ← List.map_take, htake, List.map_map, List.map_map]
    have hentry : ∀ e ∈ Kind.roots, (e.1, s.kindOf e.1) = e :=
      fun e he => Prod.ext rfl (Snapshot.kindOf_of_root (hroot e he))
    exact (List.map_congr_left hentry).trans (List.map_id _)
  root_parent i _ root hroot hparent := by
    obtain ⟨name, _, _, rfl⟩ := (h.getElem?_nodes hs.distinct).1 hroot
    obtain ⟨parent, hp⟩ := Option.isSome_iff_exists.1 hparent
    obtain ⟨parentName, hname, _⟩ := Option.map_eq_some_iff.1 hp
    obtain ⟨r, hr, rfl, hrecord⟩ := (Snapshot.parent?_eq_some_iff hs.distinct).1 hname
    exact ⟨r, hr, rfl, by rw [hrecord]; rfl⟩

end TypeTable

namespace Indexed

def reached (x : Except ε α) : Indexed ε α := ExceptT.mk (some x)

theorem reached_ne_stop (x : Except ε α) : reached x ≠ stop := Option.some_ne_none x

theorem reached_bind_pure (x : Except ε α) (f : α → β) :
    (reached x >>= fun a => pure (f a)) = reached (x.map f) := by
  cases x <;> rfl

theorem mapM_reached {f : α → Indexed ε β} {g : α → Except ε β} {l : List α} (h : ∀ a ∈ l, f a = reached (g a)) :
    l.mapM f = reached (l.mapM g) := by
  induction l with
  | nil => rfl
  | cons a l ih =>
    rw [List.mapM_cons, List.mapM_cons, h a List.mem_cons_self, ih fun b hb => h b (List.mem_cons_of_mem a hb)]
    cases g a with
    | error e => rfl
    | ok b => cases l.mapM g <;> rfl

end Indexed

namespace TypeTable

/-- A table answers every query as the registry does, with the places of types for their names. -/
structure Agrees (t : TypeTable) (r : Registry) : Prop where
  typeFromName? : ∀ name, t.typeFromName? name = if r.sees name then some (r.indexOf name) else none
  describe : ∀ name ∈ r.snapshot.typeNames, t.describe (r.indexOf name) = .reached (.ok (r.describe name))
  isAbstract : ∀ name ∈ r.snapshot.typeNames, t.isAbstract (r.indexOf name) = .reached (.ok (r.isAbstract name))
  children : ∀ name ∈ r.snapshot.typeNames,
    t.children (r.indexOf name) = .reached (.ok ((r.children name).map r.indexOf))
  nickname? : ∀ name ∈ r.snapshot.typeNames, t.nickname? (r.indexOf name) = .reached (.ok (r.nickname? name))
  enumValues : ∀ name ∈ r.snapshot.typeNames, t.enumValues (r.indexOf name) = .reached (r.enumValues name)
  operation : ∀ nickname, t.operation nickname = .reached (r.operation nickname)
  imageProperties : t.imageProperties = .reached r.properties

variable {t t' : TypeTable} {r : Registry} {name : String}

namespace Represents

theorem get_node (h : t.Represents r.snapshot r.hidden) (hm : name ∈ r.snapshot.typeNames) :
    (Indexed.get t.nodes (r.indexOf name) : Indexed ε TypeNode) = pure (r.snapshot.node name) := by
  rw [h.nodes]
  exact Indexed.get_eq (Snapshot.getElem?_map_typeNames hm _)

theorem isHidden (h : t.Represents r.snapshot r.hidden) (hm : name ∈ r.snapshot.typeNames) :
    t.isHidden (r.indexOf name) = r.isHidden name := by
  rw [Bool.eq_iff_iff, TypeTable.isHidden, Registry.isHidden, List.contains_iff_mem, List.contains_iff_mem,
    h.mem_hidden]
  constructor
  · rintro ⟨other, hother, hplace⟩
    exact Snapshot.place_inj (h.known other hother) hm hplace ▸ hother
  · intro hn
    exact ⟨name, hn, rfl⟩

theorem typeFromName? (h : t.Represents r.snapshot r.hidden) (name : String) :
    t.typeFromName? name = if r.sees name then some (r.indexOf name) else none := by
  rw [TypeTable.typeFromName?, Snapshot.get?_of_places h.byName, Registry.sees]
  cases hk : r.snapshot.isKnown name with
  | false => rfl
  | true =>
    have hhidden := h.isHidden (Snapshot.mem_typeNames_iff_isKnown.2 hk)
    rw [if_pos rfl, Bool.true_and, ← hhidden]
    rfl

theorem describe (h : t.Represents r.snapshot r.hidden) (hm : name ∈ r.snapshot.typeNames) :
    t.describe (r.indexOf name) = .reached (.ok (r.describe name)) := by
  rw [TypeTable.describe, h.get_node hm]
  rfl

theorem children (h : t.Represents r.snapshot r.hidden) (hm : name ∈ r.snapshot.typeNames) :
    t.children (r.indexOf name) = .reached (.ok ((r.children name).map r.indexOf)) := by
  have hnode : (r.snapshot.node name).children =
      ((r.snapshot.types.filter (·.parent = some name)).map (·.name)).map r.indexOf := by
    rw [List.map_map]
    rfl
  have hvisible : ∀ c ∈ (r.snapshot.types.filter (·.parent = some name)).map (·.name),
      (!t.isHidden (r.indexOf c)) = !r.isHidden c := by
    intro c hc
    obtain ⟨record, hrecord, rfl⟩ := List.mem_map.1 hc
    rw [h.isHidden (Snapshot.mem_types_of_mem_children hrecord)]
  rw [TypeTable.children, h.get_node hm, pure_bind, hnode, List.filter_map, Function.comp_def,
    List.filter_congr hvisible]
  rfl

theorem descriptor (h : t.Represents r.snapshot r.hidden) (name : String) :
    t.descriptor name = .reached (r.descriptor name) := by
  rw [TypeTable.descriptor, Snapshot.get?_of_places h.byName, Registry.descriptor]
  by_cases hk : r.snapshot.isKnown name
  · rw [if_pos hk, if_pos hk]
    exact h.describe (Snapshot.mem_typeNames_iff_isKnown.2 hk)
  · rw [if_neg hk, if_neg hk]
    rfl

theorem enumValues (h : t.Represents r.snapshot r.hidden) (hm : name ∈ r.snapshot.typeNames) :
    t.enumValues (r.indexOf name) = .reached (r.enumValues name) := by
  rw [TypeTable.enumValues, h.get_node hm, pure_bind, h.enums, Registry.enumValues]
  change (if r.snapshot.kindOf name = .enum then _ else _) = _
  by_cases hk : r.snapshot.kindOf name = .enum
  · rw [if_pos hk, if_pos hk]
    rfl
  · rw [if_neg hk, if_neg hk]
    rfl

theorem ensureConcrete (h : t.Represents r.snapshot r.hidden) (nickname : String) : t.ensureConcrete nickname =
    if (r.carrier? nickname).any r.isAbstract then throw (.abstract nickname) else pure () := by
  have hnickname : t.byNickname.get? nickname = (r.carrier? nickname).map r.indexOf := h.byNickname nickname
  rw [TypeTable.ensureConcrete, hnickname]
  cases hc : r.carrier? nickname with
  | none => rfl
  | some name =>
    simp only [Option.map_some, h.get_node (List.mem_of_find?_eq_some hc), pure_bind]
    rfl

theorem operation (h : t.Represents r.snapshot r.hidden) (nickname : String) :
    t.operation nickname = .reached (r.operation nickname) := by
  have hargument : ∀ a, t.argument a = .reached (r.argument a) := by
    intro a
    rw [TypeTable.argument, Registry.argument, h.descriptor, Indexed.reached_bind_pure]
  rw [TypeTable.operation, Registry.operation, h.ensureConcrete, h.operations]
  by_cases ha : (r.carrier? nickname).any r.isAbstract
  · rw [if_pos ha, if_pos ha]
    rfl
  · rw [if_neg ha, if_neg ha, pure_bind]
    cases r.snapshot.operations.get? nickname with
    | none => rfl
    | some op => simp only [Indexed.mapM_reached fun a _ => hargument a, Indexed.reached_bind_pure]

theorem imageProperties (h : t.Represents r.snapshot r.hidden) : t.imageProperties = .reached r.properties := by
  rw [TypeTable.imageProperties, Registry.properties, h.properties]
  apply Indexed.mapM_reached
  intro p _
  rw [TypeTable.property, Registry.property, h.descriptor, Indexed.reached_bind_pure]

theorem agrees (h : t.Represents r.snapshot r.hidden) : t.Agrees r where
  typeFromName? := h.typeFromName?
  describe _ hm := h.describe hm
  isAbstract name hm := by
    rw [TypeTable.isAbstract, h.get_node hm]
    rfl
  children _ hm := h.children hm
  nickname? name hm := by
    rw [TypeTable.nickname?, h.get_node hm]
    rfl
  enumValues _ hm := h.enumValues hm
  operation := h.operation
  imageProperties := h.imageProperties

end Represents

theorem Represents.force (h : t.Represents r.snapshot r.hidden) (hf : t.force name = .ok t') :
    t'.Represents r.snapshot (r.revealed [name]).hidden := by
  rw [TypeTable.force, Snapshot.get?_of_places h.byName] at hf
  cases hk : r.snapshot.isKnown name with
  | false => simp [hk] at hf
  | true =>
    have hm := Snapshot.mem_typeNames_iff_isKnown.2 hk
    simp only [hk, if_true, Except.ok.injEq] at hf
    subst hf
    refine { h with mem_hidden := ?_, known := fun n hn => h.known n (r.hidden_revealed_subset _ hn) }
    intro i
    simp only [List.mem_filter, h.mem_hidden, decide_eq_true_eq, Registry.mem_hidden_revealed, List.mem_singleton]
    constructor
    · rintro ⟨⟨n, hn, rfl⟩, hne⟩
      exact ⟨n, ⟨hn, fun he => hne (he.1 ▸ rfl)⟩, rfl⟩
    · rintro ⟨n, ⟨hn, hne⟩, rfl⟩
      refine ⟨⟨n, hn, rfl⟩, fun he => hne ?_⟩
      obtain rfl := Snapshot.place_inj (h.known n hn) hm he
      exact ⟨rfl, hk⟩

/-- A table in use: the places that it has handed out so far, and the names that were made visible. -/
inductive InUse (t₀ : TypeTable) : TypeTable → List Nat → List String → Prop
  | fresh : InUse t₀ t₀ [] []
  | found {t : TypeTable} {handed : List Nat} {forced : List String} {name : String} {i : Nat}
      (h : InUse t₀ t handed forced) (hi : t.typeFromName? name = some i) : InUse t₀ t (i :: handed) forced
  | listed {t : TypeTable} {handed children : List Nat} {forced : List String} {p : Nat}
      (h : InUse t₀ t handed forced) (hp : p ∈ handed) (hc : t.children p = pure children) :
      InUse t₀ t (children ++ handed) forced
  | forced {t t' : TypeTable} {handed : List Nat} {forced : List String} {name : String}
      (h : InUse t₀ t handed forced) (hf : t.force name = .ok t') : InUse t₀ t' handed (forced ++ [name])

/-- No query uses a place out of range, if it is asked about places that were handed out. -/
structure Answers (t : TypeTable) (handed : List Nat) : Prop where
  describe : ∀ i ∈ handed, t.describe i ≠ .stop
  isAbstract : ∀ i ∈ handed, t.isAbstract i ≠ .stop
  children : ∀ i ∈ handed, t.children i ≠ .stop
  nickname? : ∀ i ∈ handed, t.nickname? i ≠ .stop
  enumValues : ∀ i ∈ handed, t.enumValues i ≠ .stop
  operation : ∀ nickname, t.operation nickname ≠ .stop
  imageProperties : t.imageProperties ≠ .stop

theorem Agrees.answers (h : t.Agrees r) {handed : List Nat}
    (hh : ∀ i ∈ handed, ∃ name ∈ r.snapshot.typeNames, r.indexOf name = i) : t.Answers handed where
  describe i hi := by
    obtain ⟨name, hm, rfl⟩ := hh i hi
    exact h.describe name hm ▸ Indexed.reached_ne_stop _
  isAbstract i hi := by
    obtain ⟨name, hm, rfl⟩ := hh i hi
    exact h.isAbstract name hm ▸ Indexed.reached_ne_stop _
  children i hi := by
    obtain ⟨name, hm, rfl⟩ := hh i hi
    exact h.children name hm ▸ Indexed.reached_ne_stop _
  nickname? i hi := by
    obtain ⟨name, hm, rfl⟩ := hh i hi
    exact h.nickname? name hm ▸ Indexed.reached_ne_stop _
  enumValues i hi := by
    obtain ⟨name, hm, rfl⟩ := hh i hi
    exact h.enumValues name hm ▸ Indexed.reached_ne_stop _
  operation nickname := h.operation nickname ▸ Indexed.reached_ne_stop _
  imageProperties := h.imageProperties ▸ Indexed.reached_ne_stop _

theorem InUse.represents {t₀ : TypeTable} (h₀ : t₀.Represents r.snapshot r.hidden) {handed : List Nat}
    {forced : List String} (h : t₀.InUse t handed forced) : t.Represents r.snapshot (r.revealed forced).hidden ∧
      ∀ i ∈ handed, ∃ name ∈ r.snapshot.typeNames, r.indexOf name = i := by
  induction h with
  | fresh => exact ⟨r.revealed_nil.symm ▸ h₀, fun _ hi => absurd hi List.not_mem_nil⟩
  | @found t handed forced name i _ hi ih =>
    obtain ⟨ht, hhanded⟩ := ih
    have hplace := ht.get?_byName.1 (Option.filter_eq_some_iff.1 hi).1
    exact ⟨ht, List.forall_mem_cons.2 ⟨⟨name, hplace⟩, hhanded⟩⟩
  | @listed t handed children forced p _ hp hc ih =>
    obtain ⟨ht, hhanded⟩ := ih
    obtain ⟨parent, hm, rfl⟩ := hhanded p hp
    have hchildren := Represents.children (r := r.revealed forced) ht hm
    obtain rfl : children = ((r.revealed forced).children parent).map r.indexOf :=
      Except.ok.inj (Option.some.inj (hc.symm.trans hchildren))
    refine ⟨ht, List.forall_mem_append.2 ⟨?_, hhanded⟩⟩
    intro i hi
    obtain ⟨child, hchild, rfl⟩ := List.mem_map.1 hi
    obtain ⟨record, hrecord, rfl⟩ := List.mem_map.1 (List.mem_of_mem_filter hchild)
    exact ⟨record.name, Snapshot.mem_types_of_mem_children hrecord, rfl⟩
  | @forced t t' handed forced name _ hf ih =>
    obtain ⟨ht, hhanded⟩ := ih
    have ht' := Represents.force (r := r.revealed forced) ht hf
    rw [← Registry.revealed_append] at ht'
    exact ⟨ht', hhanded⟩

/-- The table of an accepted snapshot is sound, and it stays so while it is in use. Every query about types that were
handed out is answered, and it is answered as the registry does. -/
theorem ofSnapshot_in_use {s : Snapshot} (h : Registry.ofSnapshot s = .ok r) :
    ∃ t₀, TypeTable.ofSnapshot s = pure t₀ ∧ ∀ t handed forced, InUse t₀ t handed forced →
      t.Sound s ∧ t.Answers handed ∧ t.Agrees (r.revealed forced) := by
  obtain ⟨rfl, hhidden⟩ := Registry.ofSnapshot_eq_ok_iff.1 h
  have hgives := r.snapshot.gives_table
  rw [r.sound, ← hhidden] at hgives
  obtain ⟨t₀, ht₀, hrep⟩ := hgives
  refine ⟨t₀, ht₀, fun t handed forced huse => ?_⟩
  obtain ⟨ht, hhanded⟩ := huse.represents hrep
  have hagrees : t.Agrees (r.revealed forced) := Represents.agrees ht
  exact ⟨ht.sound r.wellFormed, hagrees.answers hhanded, hagrees⟩

/-- A root that is recorded below a declared type, and a type that is hidden there. -/
def redeclared : Registry where
  snapshot :=
    { types := [⟨"VipsObject", some "GObject", none, true, false⟩,
        ⟨"VipsImage", some "VipsObject", none, false, false⟩,
        ⟨"VipsInvert", some "VipsObject", some "invert", false, false⟩]
      operations := {}
      enums := {}
      properties := []
      lazyTypes := ["VipsInvert"] }
  sound := by decide
  hidden := ["VipsInvert"]

theorem ofSnapshot_in_use_redeclared : Registry.ofSnapshot redeclared.snapshot = .ok redeclared ∧
    ∃ t₀, TypeTable.ofSnapshot redeclared.snapshot = pure t₀ ∧ t₀.Sound redeclared.snapshot ∧
      t₀.typeFromName? "VipsObject" = some 13 ∧ t₀.typeFromName? "VipsInvert" = none ∧
      t₀.children 13 = pure [8] ∧ t₀.Answers [8, 13] := by
  have h : Registry.ofSnapshot redeclared.snapshot = .ok redeclared := Registry.ofSnapshot_eq_ok_iff.2 ⟨rfl, rfl⟩
  obtain ⟨t₀, ht₀, huse⟩ := ofSnapshot_in_use h
  obtain ⟨hsound, _, hagrees⟩ := huse t₀ [] [] .fresh
  have hobject : t₀.typeFromName? "VipsObject" = some 13 := (hagrees.typeFromName? _).trans (by decide)
  have hchildren : t₀.children 13 = pure [8] := (hagrees.children "VipsObject" (by decide)).trans (by rfl)
  have hhanded : t₀.InUse t₀ [8, 13] [] := .listed (.found .fresh hobject) List.mem_cons_self hchildren
  obtain ⟨_, hanswers, _⟩ := huse t₀ [8, 13] [] hhanded
  exact ⟨h, t₀, ht₀, hsound, hobject, (hagrees.typeFromName? _).trans (by decide), hchildren, hanswers⟩

end TypeTable

end Autodoc
