import Mathlib.Data.List.Nodup
import Mathlib.Logic.Relation
import Autodoc.Registry

namespace Autodoc

theorem Kind.isSome_ofRoot?_iff {type : String} :
    (Kind.ofRoot? type).isSome = true ↔ type ∈ Kind.roots.map Prod.fst := by
  have lookup (es : List (String × Kind)) :
      (es.lookup type).isSome = true ↔ type ∈ es.map Prod.fst := by
    induction es with
    | nil => simp only [List.lookup_nil, Option.isSome_none, Bool.false_eq_true, List.map_nil,
        List.not_mem_nil]
    | cons e es ih =>
      obtain ⟨root, kind⟩ := e
      by_cases he : type = root
      · simp [he]
      · have hb : (type == root) = false := beq_false_of_ne he
        simp only [List.lookup_cons, hb, ih, List.map_cons, List.mem_cons, he, false_or]
  exact lookup Kind.roots

namespace Snapshot

variable {s : Snapshot}

/-- A type is recorded right below its parent. -/
def ParentOf (s : Snapshot) (parent child : String) : Prop :=
  ∃ t ∈ s.types, t.name = child ∧ t.parent = some parent

/-- A type is met on the way up from another, after one link or more. -/
def Above (s : Snapshot) : String → String → Prop := Relation.TransGen s.ParentOf

/-- Names are recorded once, what is named is known, and no chain of parents goes in circles. -/
structure WellFormed (s : Snapshot) : Prop where
  distinct : (s.types.map (·.name)).Nodup
  parents : ∀ t ∈ s.types, ∀ parent, t.parent = some parent → s.isKnown parent = true
  chains : ∀ name ∈ s.declared, s.chain name ≠ .endless
  arguments : ∀ e ∈ s.operations.entries, ∀ a ∈ e.2.arguments, s.isKnown a.type = true
  properties : ∀ p ∈ s.properties, s.isKnown p.type = true
  enums : ∀ name ∈ s.enums.keys, s.isKnown name = true
  lazyTypes : ∀ name ∈ s.lazyTypes, s.isKnown name = true

theorem firstRepeat?_eq_none_iff {seen names : List String} :
    firstRepeat? seen names = none ↔ names.Nodup ∧ ∀ name ∈ names, name ∉ seen := by
  induction names generalizing seen with
  | nil => simp [firstRepeat?]
  | cons name names ih =>
    simp only [firstRepeat?, List.contains_eq_mem, decide_eq_true_eq]
    split
    next h => simp [h]
    next h =>
      rw [ih, List.nodup_cons]
      constructor
      · rintro ⟨hn, hs⟩
        refine ⟨⟨fun hm => hs name hm List.mem_cons_self, hn⟩, ?_⟩
        intro n hm
        rcases List.mem_cons.1 hm with rfl | hm
        · exact h
        · exact fun hseen => hs n hm (List.mem_cons_of_mem _ hseen)
      · rintro ⟨⟨hm, hn⟩, hs⟩
        refine ⟨hn, ?_⟩
        intro n hn' hseen
        rcases List.mem_cons.1 hseen with rfl | hseen
        · exact hm hn'
        · exact hs n (List.mem_cons_of_mem _ hn') hseen

theorem duplicate?_eq_none_iff : s.duplicate? = none ↔ (s.types.map (·.name)).Nodup := by
  simp [duplicate?, firstRepeat?_eq_none_iff]

theorem unknownParent?_eq_none_iff : s.unknownParent? = none ↔
    ∀ t ∈ s.types, ∀ parent, t.parent = some parent → s.isKnown parent = true := by
  simp only [unknownParent?, List.findSome?_eq_none_iff]
  refine forall₂_congr fun t _ => ?_
  cases ht : t.parent with
  | none => simp
  | some parent => simp

theorem cycle?_eq_none_iff :
    s.cycle? = none ↔ ∀ name ∈ s.declared, s.chain name ≠ .endless := by
  simp [cycle?]

theorem unknownArgumentType?_eq_none_iff : s.unknownArgumentType? = none ↔
    ∀ e ∈ s.operations.entries, ∀ a ∈ e.2.arguments, s.isKnown a.type = true := by
  simp [unknownArgumentType?]

theorem unknownPropertyType?_eq_none_iff :
    s.unknownPropertyType? = none ↔ ∀ p ∈ s.properties, s.isKnown p.type = true := by
  simp [unknownPropertyType?]

theorem unknownEnum?_eq_none_iff :
    s.unknownEnum? = none ↔ ∀ name ∈ s.enums.keys, s.isKnown name = true := by
  simp [unknownEnum?]

theorem unknownLazyType?_eq_none_iff :
    s.unknownLazyType? = none ↔ ∀ name ∈ s.lazyTypes, s.isKnown name = true := by
  simp [unknownLazyType?]

theorem defect?_eq_none_iff : s.defect? = none ↔ s.WellFormed := by
  simp only [defect?, Option.orElse_eq_orElse, Option.orElse_eq_or, Option.or_eq_none_iff, duplicate?_eq_none_iff,
    unknownParent?_eq_none_iff, cycle?_eq_none_iff, unknownArgumentType?_eq_none_iff,
    unknownPropertyType?_eq_none_iff, unknownEnum?_eq_none_iff, unknownLazyType?_eq_none_iff]
  constructor
  · rintro ⟨hd, hp, hc, ha, hr, he, hl⟩
    exact ⟨hd, hp, hc, ha, hr, he, hl⟩
  · intro h
    exact ⟨h.distinct, h.parents, h.chains, h.arguments, h.properties, h.enums, h.lazyTypes⟩

theorem mem_typeNames {name : String} : name ∈ s.typeNames ↔
    (Kind.ofRoot? name).isSome = true ∨ ∃ t ∈ s.types, t.name = name := by
  rw [typeNames, List.mem_append, ← Kind.isSome_ofRoot?_iff]
  simp only [declared, List.mem_filter, List.mem_map]
  cases Kind.ofRoot? name <;> simp

theorem mem_typeNames_of_mem {t : TypeRecord} (ht : t ∈ s.types) : t.name ∈ s.typeNames :=
  mem_typeNames.2 (.inr ⟨t, ht, rfl⟩)

theorem isSome_record?_iff {name : String} :
    (s.record? name).isSome = true ↔ ∃ t ∈ s.types, t.name = name := by
  simp [record?]

theorem mem_of_record?_eq_some {name : String} {t : TypeRecord} (h : s.record? name = some t) :
    t ∈ s.types ∧ t.name = name := by
  have hn := List.find?_some h
  exact ⟨List.mem_of_find?_eq_some h, by simpa only [decide_eq_true_eq] using hn⟩

theorem record?_eq_some_iff (hd : (s.types.map (·.name)).Nodup) {name : String} {t : TypeRecord} :
    s.record? name = some t ↔ t ∈ s.types ∧ t.name = name := by
  constructor
  · exact mem_of_record?_eq_some
  · rintro ⟨ht, rfl⟩
    obtain ⟨u, hu⟩ := Option.isSome_iff_exists.1 (isSome_record?_iff.2 ⟨t, ht, rfl⟩)
    obtain ⟨hm, hn⟩ := mem_of_record?_eq_some hu
    have he : u = t := List.inj_on_of_nodup_map hd hm ht hn
    exact he ▸ hu

theorem parent?_eq_some_iff (hd : (s.types.map (·.name)).Nodup) {parent child : String} :
    s.parent? child = some parent ↔ s.ParentOf parent child := by
  simp only [parent?, Option.bind_eq_some_iff, record?_eq_some_iff hd, ParentOf, and_assoc]

theorem ParentOf.unique (hd : (s.types.map (·.name)).Nodup) {p q child : String}
    (hp : s.ParentOf p child) (hq : s.ParentOf q child) : p = q := by
  rw [← parent?_eq_some_iff hd] at hp hq
  exact Option.some.inj (hp.symm.trans hq)

theorem ParentOf.mem_typeNames {parent child : String} (h : s.ParentOf parent child) :
    child ∈ s.typeNames := by
  obtain ⟨t, ht, rfl, _⟩ := h
  exact mem_typeNames_of_mem ht

theorem ParentOf.mem_declared {parent child : String} (h : s.ParentOf parent child)
    (hr : Kind.ofRoot? child = none) : child ∈ s.declared := by
  obtain ⟨t, ht, rfl, _⟩ := h
  exact List.mem_filter.2 ⟨List.mem_map_of_mem ht, by simp [hr]⟩

end Snapshot

theorem Registry.wellFormed (r : Registry) : r.snapshot.WellFormed :=
  Snapshot.defect?_eq_none_iff.1 r.sound

theorem Registry.ofSnapshot_eq_ok_iff {s : Snapshot} {r : Registry} :
    Registry.ofSnapshot s = .ok r ↔ r.snapshot = s ∧ r.hidden = s.lazyTypes := by
  unfold ofSnapshot
  split
  next e h =>
    constructor
    · intro he
      cases he
    · rintro ⟨rfl, _⟩
      rw [r.sound] at h
      cases h
  next h =>
    constructor
    · intro he
      cases he
      exact ⟨rfl, rfl⟩
    · rintro ⟨rfl, hh⟩
      rw [← hh]

/-- A snapshot is accepted exactly when it is well formed. -/
theorem Registry.exists_ofSnapshot_iff {s : Snapshot} :
    (∃ r, Registry.ofSnapshot s = .ok r) ↔ s.WellFormed := by
  constructor
  · rintro ⟨r, hr⟩
    exact (ofSnapshot_eq_ok_iff.1 hr).1 ▸ r.wellFormed
  · intro h
    exact ⟨⟨s, Snapshot.defect?_eq_none_iff.2 h, s.lazyTypes⟩, ofSnapshot_eq_ok_iff.2 ⟨rfl, rfl⟩⟩

end Autodoc
