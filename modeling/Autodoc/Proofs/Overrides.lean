import Autodoc.Config.Document
import Autodoc.ConfigFile
import Autodoc.Proofs.Decoding
import Autodoc.Proofs.Merging
import Autodoc.Proofs.Printing

namespace Autodoc

open Json

def HeaderConfig.over (given : String → Bool) (h base : HeaderConfig) : HeaderConfig where
  phpVersion := if given "php_version" then h.phpVersion else base.phpVersion
  copyrightYear := if given "copyright_year" then h.copyrightYear else base.copyrightYear
  copyrightHolder := if given "copyright_holder" then h.copyrightHolder else base.copyrightHolder
  category := if given "category" then h.category else base.category
  author := if given "author" then h.author else base.author
  license := if given "license" then h.license else base.license
  link := if given "link" then h.link else base.link

def Config.over (given : String → Bool) (c base : Config) : Config where
  libraryPrefix := if given "library_prefix" then c.libraryPrefix else base.libraryPrefix
  hostNamespace := if given "namespace" then c.hostNamespace else base.hostNamespace
  operationRoot := if given "operation_root" then c.operationRoot else base.operationRoot
  enumRoot := if given "enum_root" then c.enumRoot else base.enumRoot
  autodocClass := if given "autodoc_class" then c.autodocClass else base.autodocClass
  denyList := if given "deny_list" then c.denyList else base.denyList
  synonyms := if given "synonyms" then c.synonyms else base.synonyms
  lazyEnumTypes := if given "lazy_enum_types" then c.lazyEnumTypes else base.lazyEnumTypes
  reservedNames := if given "reserved_names" then c.reservedNames else base.reservedNames
  unknownTypes := if given "unknown_types" then c.unknownTypes else base.unknownTypes
  argumentOverrides := if given "argument_overrides" then c.argumentOverrides else base.argumentOverrides
  resultOverrides := if given "result_overrides" then c.resultOverrides else base.resultOverrides
  header := if given "header" then c.header else base.header

/-- Choosing fields by name, one choice over another. -/
structure Chooses (names : List String) (chosen : (String → Bool) → α → α) : Prop where
  nothing : ∀ x, chosen (fun _ => false) x = x
  twice : ∀ S T x, chosen S (chosen T x) = chosen (fun k => S k || T k) x
  congr : ∀ {S T : String → Bool}, (∀ k ∈ names, S k = T k) → chosen S = chosen T

theorem ite_or (b c : Bool) (x y : α) :
    (if b then x else if c then x else y) = if (b || c) = true then x else y := by
  cases b <;> cases c <;> rfl

theorem HeaderConfig.chooses (h : HeaderConfig) : Chooses (h.members.map Prod.fst) fun given => h.over given where
  nothing _ := rfl
  twice S T x := by simp only [HeaderConfig.over, ite_or]
  congr hnames := by
    funext x
    simp only [members, List.map_cons, List.map_nil, List.forall_mem_cons] at hnames
    simp only [HeaderConfig.over, hnames]

theorem Config.chooses (c : Config) (header : Value) :
    Chooses ((c.membersWith header).map Prod.fst) fun given => c.over given where
  nothing _ := rfl
  twice S T x := by simp only [Config.over, ite_or]
  congr hnames := by
    funext x
    simp only [membersWith, List.map_cons, List.map_nil, List.forall_mem_cons] at hnames
    simp only [Config.over, hnames]

namespace Chooses

variable {α : Type} {names : List String} {chosen : (String → Bool) → α → α}

/-- Fields that are chosen one after the other are chosen together, whichever comes first. -/
theorem foldl (h : Chooses names chosen) (keys : List String) (x : α) :
    keys.foldl (fun x k => chosen (fun k' => k' == k) x) x = chosen (fun k => keys.contains k) x := by
  induction keys generalizing x with
  | nil => exact (h.nothing x).symm
  | cons key keys ih =>
    rw [List.foldl_cons, ih, h.twice]
    congr 1
    funext k
    rw [List.contains_cons, Bool.or_comm]

end Chooses

namespace Json

theorem decodeMembers_eq (change : String → α → α) {read : String → Value → Option (Decoded (α → α))}
    {ms : List (String × Value)} (h : ∀ m ∈ ms, read m.1 m.2 = some (.ok (change m.1))) (x : α)
    (given : List String) : ∃ given', decodeMembers read x given ms =
      .ok ((ms.map Prod.fst).foldl (fun x k => change k x) x, given') := by
  induction ms generalizing x given with
  | nil => exact ⟨given, rfl⟩
  | cons m ms ih =>
    obtain ⟨k, v⟩ := m
    obtain ⟨hm, hms⟩ := List.forall_mem_cons.1 h
    obtain ⟨given', hrest⟩ := ih hms (change k x) (k :: given)
    refine ⟨given', ?_⟩
    simp only [decodeMembers, hm]
    exact hrest

/-- Some members of a record that needs none are read, in any order, as a choice of its fields. -/
theorem Schema.ofValue_given {name : String} {blank : α} {slots : Slots α} {members ms : List (String × Value)}
    {chosen : (String → Bool) → α → α} {given : String → Bool} (hover : Chooses (members.map Prod.fst) chosen)
    (hoptional : ∀ given, slots.missing? given = none)
    (hread : ∀ m ∈ members, slots.ofMember m.1 m.2 = some (.ok (chosen fun k => k == m.1)))
    (hms : ms.Perm (members.filter fun m => given m.1)) :
    (Schema.record name blank slots).ofValue (.object ms) = .ok (chosen given blank) := by
  have hgiven : ∀ k ∈ members.map Prod.fst, (ms.map Prod.fst).contains k = given k := by
    intro k hk
    rw [Bool.eq_iff_iff, List.contains_iff_mem, (hms.map Prod.fst).mem_iff, List.mem_map]
    constructor
    · rintro ⟨m, hm, rfl⟩
      exact (List.mem_filter.1 hm).2
    · intro hg
      obtain ⟨m, hm, rfl⟩ := List.mem_map.1 hk
      exact ⟨m, List.mem_filter.2 ⟨hm, hg⟩, rfl⟩
  have hsub : ∀ m ∈ ms, slots.ofMember m.1 m.2 = some (.ok (chosen fun k => k == m.1)) :=
    fun m hm => hread m (List.mem_filter.1 (hms.subset hm)).1
  obtain ⟨given', hdecode⟩ := decodeMembers_eq (fun key => chosen fun k => k == key) hsub blank []
  rw [Schema.ofValue, hdecode]
  simp only [bind, Except.bind, hoptional]
  rw [hover.foldl, hover.congr hgiven]

theorem Slots.ofMember_eq {slots : Slots α} {k : String} {v : Value} {d : Decoded β} {set : β → α → α} {x : β}
    {change : α → α} (hk : slots.ofMember k v = some (d.map set)) (hd : d = .ok x) (hset : set x = change) :
    slots.ofMember k v = some (.ok change) := by
  rw [hk, hd, ← hset]
  rfl

theorem ofValue_ofNames (names : List String) : (Schema.list .text).ofValue (.ofNames names) = .ok names := by
  have hitems (i : Nat) : decodeItems Schema.text.ofValue i (names.map .text) = .ok names := by
    induction names generalizing i with
    | nil => rfl
    | cons n names ih =>
      rw [List.map_cons, decodeItems, ih]
      rfl
  rw [Value.ofNames, Schema.ofValue, hitems]

theorem ofValue_ofTable (t : Table String) : (Schema.table .text).ofValue (.ofTable t) = .ok t := by
  have hentries (u : Table String) (es : List (String × String)) :
      decodeEntries Schema.text.ofValue u (es.map fun e => (e.1, .text e.2)) = .ok (u.insertAll es) := by
    induction es generalizing u with
    | nil => rfl
    | cons e es ih =>
      rw [List.map_cons, decodeEntries, Table.insertAll, List.foldl_cons, ← Table.insertAll, ← ih]
      rfl
  rw [Value.ofTable, Schema.ofValue, hentries]
  exact congrArg Except.ok (Table.empty_merge t)

end Json

theorem HeaderConfig.ofValue_given (h : HeaderConfig) {given : String → Bool} {ms : List (String × Value)}
    (hms : ms.Perm (h.members.filter fun m => given m.1)) :
    HeaderConfig.schema.ofValue (.object ms) = .ok (h.over given .default) := by
  apply Schema.ofValue_given h.chooses (fun _ => rfl) ?_ hms
  intro m hm
  simp only [members, List.mem_cons, List.not_mem_nil, or_false] at hm
  rcases hm with rfl | rfl | rfl | rfl | rfl | rfl | rfl <;> rfl

theorem Config.ofValue_given (c : Config) {header : Value} (hheader : HeaderConfig.schema.ofValue header = .ok c.header)
    {given : String → Bool} {ms : List (String × Value)}
    (hms : ms.Perm ((c.membersWith header).filter fun m => given m.1)) :
    Config.schema.ofValue (.object ms) = .ok (c.over given .default) := by
  have hunknown : (Schema.choice [("sentinel", UnknownTypes.sentinel), ("fail", .fail)]).ofValue
      (.text c.unknownTypes.name) = .ok c.unknownTypes := by
    cases c.unknownTypes <;> rfl
  apply Schema.ofValue_given (c.chooses header) (fun _ => rfl) ?_ hms
  intro m hm
  simp only [membersWith, List.mem_cons, List.not_mem_nil, or_false] at hm
  rcases hm with rfl | rfl | rfl | rfl | rfl | rfl | rfl | rfl | rfl | rfl | rfl | rfl | rfl
  · rfl
  · rfl
  · rfl
  · rfl
  · rfl
  · exact Slots.ofMember_eq rfl (ofValue_ofNames _) rfl
  · exact Slots.ofMember_eq rfl (ofValue_ofNames _) rfl
  · exact Slots.ofMember_eq rfl (ofValue_ofNames _) rfl
  · exact Slots.ofMember_eq rfl (ofValue_ofTable _) rfl
  · exact Slots.ofMember_eq rfl hunknown rfl
  · exact Slots.ofMember_eq rfl (ofValue_ofTable _) rfl
  · exact Slots.ofMember_eq rfl (ofValue_ofTable _) rfl
  · exact Slots.ofMember_eq rfl hheader rfl

namespace Json

theorem Value.exact_ofNames {depth : Nat} (names : List String) : (ofNames names).Exact (depth + 2) := by
  refine .list fun v hv => ?_
  obtain ⟨n, _, rfl⟩ := List.mem_map.1 hv
  exact .text

theorem Value.exact_ofTable {depth : Nat} (t : Table String) : (ofTable t).Exact (depth + 2) := by
  refine .object ?_ fun e he => ?_
  · rw [List.map_map]
    exact t.distinct
  · obtain ⟨e, _, rfl⟩ := List.mem_map.1 he
    exact .text

theorem Value.exact_given {depth : Nat} {members ms : List (String × Value)} {given : String × Value → Bool}
    (hkeys : (members.map Prod.fst).Nodup) (hmembers : ∀ m ∈ members, m.2.Exact (depth + 1))
    (hms : ms.Perm (members.filter given)) : (Value.object ms).Exact (depth + 2) := by
  refine .object ?_ fun m hm => hmembers m (List.mem_filter.1 (hms.subset hm)).1
  rw [(hms.map Prod.fst).nodup_iff]
  exact (List.filter_sublist.map Prod.fst).nodup hkeys

end Json

theorem HeaderConfig.exact_given {depth : Nat} (h : HeaderConfig) {given : String × Value → Bool}
    {ms : List (String × Value)} (hms : ms.Perm (h.members.filter given)) : (Value.object ms).Exact (depth + 2) := by
  apply Value.exact_given _ _ hms
  · show ["php_version", "copyright_year", "copyright_holder", "category", "author", "license", "link"].Nodup
    decide
  · simp only [members, List.forall_mem_cons]
    exact ⟨.text, .text, .text, .text, .text, .text, .text, List.forall_mem_nil _⟩

namespace Config

variable {c d : Config} {v : Value}

theorem exact_given {depth : Nat} (c : Config) {header : Value} (hheader : header.Exact (depth + 2))
    {given : String × Value → Bool} {ms : List (String × Value)}
    (hms : ms.Perm ((c.membersWith header).filter given)) : (Value.object ms).Exact (depth + 3) := by
  apply Value.exact_given _ _ hms
  · show ["library_prefix", "namespace", "operation_root", "enum_root", "autodoc_class", "deny_list", "synonyms",
      "lazy_enum_types", "reserved_names", "unknown_types", "argument_overrides", "result_overrides", "header"].Nodup
    decide
  · simp only [membersWith, List.forall_mem_cons]
    exact ⟨.text, .text, .text, .text, .text, Value.exact_ofNames _, Value.exact_ofNames _, Value.exact_ofNames _,
      Value.exact_ofTable _, .text, Value.exact_ofTable _, Value.exact_ofTable _, hheader, List.forall_mem_nil _⟩

/-- A configuration is decoded from a document: from the value, from its printed text, and from every file of which the
text spells the value and gives no key twice. -/
structure DecodedFrom (d : Config) (v : Value) : Prop where
  value : Config.schema.ofValue v = .ok d
  printed : Config.schema.decodeText v.toText = .ok d
  file : ∀ {t : FileTree} {path text : String}, t.readText path = .ok text → Value.ofText text = .ok v →
    RepeatsNoKey text → Config.load t path = .ok d

theorem decodedFrom (hexact : v.Exact nestingLimit) (hvalue : Config.schema.ofValue v = .ok d) : d.DecodedFrom v where
  value := hvalue
  printed := (Config.schema.decodeText_eq_ok_iff (written_toText hexact) d).2 hvalue
  file hread hspells hkeys := by
    obtain ⟨r, hwritten⟩ := written_of_ofText hspells hkeys
    rw [load, hread]
    simp only [(Config.schema.decodeText_eq_ok_iff hwritten d).2 hvalue]
    rfl

/-- The document that gives just some fields of a configuration, and of its header, in whatever order, is decoded as the
configuration that has these fields, and those of the default else; the document that gives all of them is decoded as
the configuration that it is written for. -/
theorem decodedFrom_given (c : Config) :
    (∀ (given givenHeader : String → Bool) (hs ms : List (String × Value)),
      hs.Perm (c.header.members.filter fun m => givenHeader m.1) →
      ms.Perm ((c.membersWith (.object hs)).filter fun m => given m.1) →
      DecodedFrom ({ c with header := c.header.over givenHeader .default }.over given .default) (.object ms)) ∧
    c.DecodedFrom c.toValue := by
  have hsome (given givenHeader : String → Bool) (hs ms : List (String × Value))
      (hhs : hs.Perm (c.header.members.filter fun m => givenHeader m.1))
      (hms : ms.Perm ((c.membersWith (.object hs)).filter fun m => given m.1)) :
      DecodedFrom ({ c with header := c.header.over givenHeader .default }.over given .default) (.object ms) :=
    decodedFrom (c.exact_given (c.header.exact_given hhs) hms) (ofValue_given _ (c.header.ofValue_given hhs) hms)
  refine ⟨hsome, ?_⟩
  have hall := hsome (fun _ => true) (fun _ => true) c.header.members (c.membersWith (.object c.header.members))
    (by rw [List.filter_true]) (by rw [List.filter_true])
  exact hall

def signed : Config :=
  { Config.default with
    reservedNames := .ofList [("NAN", "NAN1"), ("CASE", "CASE1")]
    header := { HeaderConfig.default with author := "anonymous" } }

theorem decodedFrom_given_signed :
    signed.DecodedFrom (.object
      [("header", .object [("author", .text "anonymous")]),
        ("reserved_names", .object [("NAN", .text "NAN1"), ("CASE", .text "CASE1")])]) := by
  have hheader : [("author", Value.text "anonymous")].Perm
      (signed.header.members.filter fun m => m.1 == "author") := .refl _
  exact (decodedFrom_given signed).1 (fun k => k == "header" || k == "reserved_names") (fun k => k == "author") _ _
    hheader (.swap _ _ _)

end Config

end Autodoc
