import Autodoc.Proofs.Session
import Autodoc.Proofs.Validation

namespace Autodoc

theorem find?_filter_ne {l : List String} {x : String} {p q : String → Bool} (hpq : ∀ y, y ≠ x → q y = p y)
    (h : l.find? p ≠ some x) : (l.filter (· ≠ x)).find? q = l.find? p := by
  induction l with
  | nil => rfl
  | cons y l ih =>
    cases hp : p y with
    | true =>
      rw [List.find?_cons, hp] at h
      have hy : y ≠ x := fun he => h (congrArg some he)
      rw [List.filter_cons_of_pos (by simpa using hy), List.find?_cons, List.find?_cons, hpq y hy, hp]
    | false =>
      rw [List.find?_cons, hp] at h ⊢
      by_cases hy : y = x
      · rw [List.filter_cons_of_neg (by simpa using hy), ih h]
      · rw [List.filter_cons_of_pos (by simpa using hy), List.find?_cons, hpq y hy, hp, ih h]

namespace Snapshot

variable {s : Snapshot} {name other : String}

def without (s : Snapshot) (name : String) : Snapshot := { s with types := s.types.filter (·.name ≠ name) }

/-- Nothing in a snapshot refers to a type, but perhaps its own record. -/
structure Unreferenced (s : Snapshot) (name : String) : Prop where
  parents : ∀ t ∈ s.types, t.name ≠ name → t.parent ≠ some name
  arguments : ∀ e ∈ s.operations.entries, ∀ a ∈ e.2.arguments, a.type ≠ name
  properties : ∀ p ∈ s.properties, p.type ≠ name
  enums : name ∉ s.enums.keys
  lazyTypes : name ∉ s.lazyTypes

theorem mem_types_without {t : TypeRecord} : t ∈ (s.without name).types ↔ t ∈ s.types ∧ t.name ≠ name := by
  rw [without, List.mem_filter, decide_eq_true_eq]

theorem record?_without (h : other ≠ name) : (s.without name).record? other = s.record? other := by
  rw [record?, without, List.find?_filter, record?]
  congr 1
  funext t
  by_cases ht : t.name = other <;> simp [ht, h]

theorem isKnown_without (h : other ≠ name) : (s.without name).isKnown other = s.isKnown other := by
  rw [isKnown, record?_without h, isKnown]

theorem parent?_without (h : other ≠ name) : (s.without name).parent? other = s.parent? other := by
  rw [parent?, record?_without h, parent?]

theorem parentOf_without_iff {parent child : String} :
    (s.without name).ParentOf parent child ↔ s.ParentOf parent child ∧ child ≠ name := by
  constructor
  · rintro ⟨t, ht, rfl, hp⟩
    obtain ⟨ht, hne⟩ := mem_types_without.1 ht
    exact ⟨⟨t, ht, rfl, hp⟩, hne⟩
  · rintro ⟨⟨t, ht, rfl, hp⟩, hne⟩
    exact ⟨t, mem_types_without.2 ⟨ht, hne⟩, rfl, hp⟩

theorem typeNames_without (hr : ¬ Kind.IsRoot name) :
    (s.without name).typeNames = s.typeNames.filter (· ≠ name) := by
  have hroots : (Kind.roots.map Prod.fst).filter (· ≠ name) = Kind.roots.map Prod.fst := by
    rw [List.filter_eq_self]
    intro root hroot
    have hne : root ≠ name := fun he => hr (Kind.isSome_ofRoot?_iff.2 (he ▸ hroot))
    exact decide_eq_true hne
  rw [typeNames, typeNames, List.filter_append, hroots, declared, declared, without, List.filter_comm,
    List.filter_map (l := s.types) (p := (· ≠ name))]
  rfl

theorem Unreferenced.parent_ne (hu : s.Unreferenced name) {parent : String} (hne : other ≠ name)
    (hp : s.parent? other = some parent) : parent ≠ name := by
  obtain ⟨t, ht, rfl, hparent⟩ := parentOf_of_parent? hp
  rintro rfl
  exact hu.parents t ht hne hparent

theorem Grounded.without (hu : s.Unreferenced name) {type : String} (h : s.Grounded type) (hne : type ≠ name) :
    (s.without name).Grounded type := by
  induction h with
  | loose hp => exact .loose ((parent?_without hne).trans hp)
  | root hp hr => exact .root ((parent?_without hne).trans hp) hr
  | step hp _ ih => exact .step ((parent?_without hne).trans hp) (ih (hu.parent_ne hne hp))

theorem WellFormed.without (h : s.WellFormed) (hu : s.Unreferenced name) : (s.without name).WellFormed where
  distinct := h.distinct.sublist (List.filter_sublist.map _)
  parents t ht parent hp := by
    obtain ⟨ht, hne⟩ := mem_types_without.1 ht
    have hparent : parent ≠ name := fun he => hu.parents t ht hne (hp.trans (congrArg some he))
    rw [isKnown_without hparent]
    exact h.parents t ht parent hp
  chains type htype := by
    obtain ⟨htype, hr⟩ := List.mem_filter.1 htype
    obtain ⟨t, ht, rfl⟩ := List.mem_map.1 htype
    obtain ⟨ht, hne⟩ := mem_types_without.1 ht
    have hdeclared : t.name ∈ s.declared := List.mem_filter.2 ⟨List.mem_map_of_mem ht, hr⟩
    exact grounded_iff.1 ((grounded_iff.2 (h.chains _ hdeclared)).without hu hne)
  arguments e he a ha := by
    rw [isKnown_without (hu.arguments e he a ha)]
    exact h.arguments e he a ha
  properties p hp := by
    rw [isKnown_without (hu.properties p hp)]
    exact h.properties p hp
  enums type htype := by
    rw [isKnown_without (ne_of_mem_of_not_mem htype hu.enums)]
    exact h.enums type htype
  lazyTypes type htype := by
    rw [isKnown_without (ne_of_mem_of_not_mem htype hu.lazyTypes)]
    exact h.lazyTypes type htype

/-- A type that is no one else's parent is no one's: it would be a circle of its own. -/
theorem WellFormed.not_parentOf (h : s.WellFormed) (hu : s.Unreferenced name) (hr : ¬ Kind.IsRoot name)
    {child : String} : ¬ s.ParentOf name child := by
  rintro ⟨t, ht, rfl, hp⟩
  by_cases hne : t.name = name
  · have hself : s.PlainParentOf name name := ⟨⟨t, ht, hne, hp⟩, hr⟩
    exact h.no_plain_circle name (.single hself)
  · exact hu.parents t ht hne hp

end Snapshot

namespace Registry

variable {r r' : Registry} {name other n : String}

/-- One registry is another without a type that is in plain sight and that nothing refers to. -/
structure Without (r r' : Registry) (name : String) : Prop where
  snapshot : r'.snapshot = r.snapshot.without name
  hidden : r'.hidden = r.hidden
  visible : name ∉ r.hidden
  unreferenced : r.snapshot.Unreferenced name
  plain : ¬ Kind.IsRoot name

theorem exists_without {s : Snapshot} (hr : ofSnapshot s = .ok r) (hu : s.Unreferenced name)
    (hplain : ¬ Kind.IsRoot name) : ∃ r', ofSnapshot (s.without name) = .ok r' ∧ r.Without r' name := by
  obtain ⟨rfl, hhidden⟩ := ofSnapshot_eq_ok_iff.1 hr
  obtain ⟨r', hr'⟩ := exists_ofSnapshot_iff.2 (r.wellFormed.without hu)
  obtain ⟨hsnapshot, hhidden'⟩ := ofSnapshot_eq_ok_iff.1 hr'
  exact ⟨r', hr', hsnapshot, hhidden'.trans hhidden.symm, hhidden ▸ hu.lazyTypes, hu, hplain⟩

namespace Without

theorem revealed (h : r.Without r' name) (names : List String) :
    (r.revealed names).Without (r'.revealed names) name where
  snapshot := h.snapshot
  hidden := by
    rw [Registry.revealed, Registry.revealed, h.hidden]
    apply List.filter_congr
    intro other hother
    rw [h.snapshot, Snapshot.isKnown_without (ne_of_mem_of_not_mem hother h.visible)]
  visible hv := h.visible (r.hidden_revealed_subset names hv)
  unreferenced := h.unreferenced
  plain := h.plain

theorem sees (h : r.Without r' name) (hne : other ≠ name) : r'.sees other = r.sees other := by
  rw [Registry.sees, Registry.sees, h.snapshot, Snapshot.isKnown_without hne, isHidden, isHidden, h.hidden]

theorem isAbstract (h : r.Without r' name) (hne : other ≠ name) : r'.isAbstract other = r.isAbstract other := by
  rw [Registry.isAbstract, Registry.isAbstract, h.snapshot, Snapshot.record?_without hne]

theorem nickname? (h : r.Without r' name) (hne : other ≠ name) : r'.nickname? other = r.nickname? other := by
  rw [Registry.nickname?, Registry.nickname?, h.snapshot, Snapshot.record?_without hne]

/-- The type leads nowhere, so the ways down that do not end in it stay open. -/
theorem descends_iff (h : r.Without r' name) {root type : String} :
    r'.Descends root type ↔ r.Descends root type ∧ type ≠ name := by
  have hshows {parent child : String} : r'.Shows parent child ↔ r.Shows parent child ∧ child ≠ name := by
    rw [Shows, Shows, h.snapshot, h.hidden, Snapshot.parentOf_without_iff, and_right_comm]
  constructor
  · intro hd
    induction hd with
    | single hs => exact ⟨.single (hshows.1 hs).1, (hshows.1 hs).2⟩
    | tail _ hs ih => exact ⟨ih.1.tail (hshows.1 hs).1, (hshows.1 hs).2⟩
  · rintro ⟨hd, hne⟩
    induction hd with
    | single hs => exact .single (hshows.2 ⟨hs, hne⟩)
    | @tail parent _ _ hs ih =>
      have hparent : parent ≠ name := fun he => r.wellFormed.not_parentOf h.unreferenced h.plain (he ▸ hs.1)
      exact (ih hparent).tail (hshows.2 ⟨hs, hne⟩)

/-- Who answers to a nickname stays, unless the type did. -/
theorem carrier? (h : r.Without r' name) (hc : r.carrier? n ≠ some name) : r'.carrier? n = r.carrier? n := by
  rw [Registry.carrier?, h.snapshot, Snapshot.typeNames_without h.plain]
  refine find?_filter_ne (fun other hne => ?_) hc
  rw [h.nickname? hne]

theorem isLive (h : r.Without r' name) (hc : r.carrier? n ≠ some name) : r'.isLive n = r.isLive n := by
  have habstract : (r.carrier? n).any r'.isAbstract = (r.carrier? n).any r.isAbstract := by
    cases ho : r.carrier? n with
    | none => rfl
    | some other => exact h.isAbstract fun he => hc (he ▸ ho)
  rw [Bool.eq_iff_iff, isLive_iff_recorded, isLive_iff_recorded, h.carrier? hc, habstract, h.snapshot]
  rfl

end Without

/-- A type is the first to carry the nickname of a recorded operation that another type below the root carries as well,
and without it a concrete type is the first. -/
structure Uncovers (r r' : Registry) (root type n : String) : Prop where
  first : r.carrier? n = some type
  next : ∃ other, r'.carrier? n = some other ∧ r'.isAbstract other = false
  recorded : ∃ o, r.snapshot.operations.get? n = some o ∧ o.deprecated = false
  reached : ∃ other, other ≠ type ∧ r.Descends root other ∧ r.nickname? other = some n

/-- A concrete type answers for a recorded operation, of which one type alone carries the nickname below the root. -/
structure FoundBy (r : Registry) (root type n : String) : Prop where
  answered : ∃ other, r.carrier? n = some other ∧ r.isAbstract other = false
  recorded : ∃ o, r.snapshot.operations.get? n = some o ∧ o.deprecated = false
  reached : r.Descends root type ∧ r.nickname? type = some n
  alone : ∀ other, r.Descends root other → r.nickname? other = some n → other = type

theorem isLive_of_answered {other : String} (ho : r.carrier? n = some other) (hconcrete : r.isAbstract other = false)
    (hrecorded : ∃ o, r.snapshot.operations.get? n = some o ∧ o.deprecated = false) : r.isLive n = true := by
  rw [isLive_iff_recorded, ho]
  exact ⟨hconcrete, hrecorded⟩

namespace Without

variable {root : String}

theorem recorded_iff (h : r.Without r' name) :
    (∃ o, r'.snapshot.operations.get? n = some o ∧ o.deprecated = false) ↔
      ∃ o, r.snapshot.operations.get? n = some o ∧ o.deprecated = false := by
  rw [h.snapshot]
  rfl

theorem uncovers_iff (h : r.Without r' name) (ha : r.isAbstract name = true) :
    r'.Finds root n ∧ ¬ r.Finds root n ↔ r.Uncovers r' root name n := by
  constructor
  · rintro ⟨⟨hlive, type, hd, htype⟩, hn⟩
    obtain ⟨other, hother⟩ := exists_carrier? htype
    obtain ⟨hd, hne⟩ := h.descends_iff.1 hd
    have htype : r.nickname? type = some n := h.nickname? hne ▸ htype
    -- the type that it is found by is there before as well, so it was another one that answered
    have hc : r.carrier? n = some name := by
      by_contra hc
      exact hn ⟨h.isLive hc ▸ hlive, type, hd, htype⟩
    have hrecorded := h.recorded_iff.1 (isLive_iff_recorded.1 hlive).2
    exact ⟨hc, ⟨other, hother, isAbstract_of_isLive hlive hother⟩, hrecorded, type, hne, hd, htype⟩
  · rintro ⟨hc, ⟨other, hother, hconcrete⟩, hrecorded, type, hne, hd, htype⟩
    have hlive := isLive_of_answered hother hconcrete (h.recorded_iff.2 hrecorded)
    refine ⟨⟨hlive, type, h.descends_iff.2 ⟨hd, hne⟩, (h.nickname? hne).trans htype⟩, fun hf => ?_⟩
    have hconcrete := isAbstract_of_isLive hf.1 hc
    rw [ha] at hconcrete
    cases hconcrete

theorem foundBy_iff (h : r.Without r' name) (ha : r.isAbstract name = true) :
    r.Finds root n ∧ ¬ r'.Finds root n ↔ r.FoundBy root name n := by
  have hkept {other : String} (ho : r.carrier? n = some other) (hconcrete : r.isAbstract other = false) :
      r'.isLive n = r.isLive n := by
    refine h.isLive fun hc => ?_
    rw [Option.some.inj (ho.symm.trans hc), ha] at hconcrete
    cases hconcrete
  constructor
  · rintro ⟨⟨hlive, type, hd, htype⟩, hn⟩
    obtain ⟨other, hother⟩ := exists_carrier? htype
    have hconcrete := isAbstract_of_isLive hlive hother
    have halone (type : String) (hd : r.Descends root type) (htype : r.nickname? type = some n) : type = name := by
      by_contra hne
      have hlive' := (hkept hother hconcrete).trans hlive
      exact hn ⟨hlive', type, h.descends_iff.2 ⟨hd, hne⟩, (h.nickname? hne).trans htype⟩
    obtain rfl := halone type hd htype
    exact ⟨⟨other, hother, hconcrete⟩, (isLive_iff_recorded.1 hlive).2, ⟨hd, htype⟩, halone⟩
  · rintro ⟨⟨other, hother, hconcrete⟩, hrecorded, ⟨hd, hn⟩, halone⟩
    refine ⟨⟨isLive_of_answered hother hconcrete hrecorded, name, hd, hn⟩, ?_⟩
    rintro ⟨_, type, hd, htype⟩
    obtain ⟨hd, hne⟩ := h.descends_iff.1 hd
    exact hne (halone type hd (h.nickname? hne ▸ htype))

end Without

variable {c : Config}

theorem mem_and_notMem_iff {p q : Registry} {ps qs : NicknameSet} (hp : (p.nicknames c).outcome = .ok ps)
    (hq : (q.nicknames c).outcome = .ok qs) : n ∈ ps.toList ∧ n ∉ qs.toList ↔
      n ∉ c.synonyms ∧ n ∉ c.denyList ∧ p.Finds c.operationRoot n ∧ ¬ q.Finds c.operationRoot n := by
  rw [mem_of_outcome_nicknames hp, mem_of_outcome_nicknames hq]
  tauto

namespace Without

variable {t : TypeRecord} {names names' : NicknameSet}

theorem outcome_eq_error_iff (h : r.Without r' name) (hc : c.operationRoot ≠ name) {e : GenerateError} :
    (r'.nicknames c).outcome = .error e ↔ (r.nicknames c).outcome = .error e := by
  rw [outcome_nicknames_eq_error_iff, outcome_nicknames_eq_error_iff, h.sees hc]

theorem mem_only_without_iff (h : r.Without r' t.name) (ht : t ∈ r.snapshot.types) (ha : t.isAbstract = true)
    (hnames : (r.nicknames c).outcome = .ok names) (hnames' : (r'.nicknames c).outcome = .ok names') :
    n ∈ names'.toList ∧ n ∉ names.toList ↔ n ∉ c.synonyms ∧ n ∉ c.denyList ∧ t.nickname = some n ∧
      r.Uncovers r' c.operationRoot t.name n := by
  rw [mem_and_notMem_iff hnames' hnames, h.uncovers_iff ((isAbstract_of_mem ht).trans ha), ← nickname?_of_mem ht]
  exact and_congr_right' (and_congr_right' (iff_and_self.2 fun hu => nickname?_of_carrier? hu.first))

theorem mem_only_with_iff (h : r.Without r' t.name) (ht : t ∈ r.snapshot.types) (ha : t.isAbstract = true)
    (hnames : (r.nicknames c).outcome = .ok names) (hnames' : (r'.nicknames c).outcome = .ok names') :
    n ∈ names.toList ∧ n ∉ names'.toList ↔ n ∉ c.synonyms ∧ n ∉ c.denyList ∧ t.nickname = some n ∧
      r.FoundBy c.operationRoot t.name n := by
  rw [mem_and_notMem_iff hnames hnames', h.foundBy_iff ((isAbstract_of_mem ht).trans ha), ← nickname?_of_mem ht]
  exact and_congr_right' (and_congr_right' (iff_and_self.2 fun hf => hf.reached.2))

theorem outcome_nicknames (h : r.Without r' t.name) (ht : t ∈ r.snapshot.types) (ha : t.isAbstract = true)
    (hall : ∀ u ∈ r.snapshot.types, u.nickname.isSome = true → u.nickname = t.nickname → u.isAbstract = true)
    (hc : c.operationRoot ≠ t.name) : (r'.nicknames c).outcome = (r.nicknames c).outcome := by
  have hshared {n : String} (hn : t.nickname = some n) :
      ∀ u ∈ r.snapshot.types, u.nickname = some n → u.isAbstract = true := by
    intro u hu hun
    exact hall u hu (by rw [hun]; rfl) (hun.trans hn.symm)
  have hshared' {n : String} (hn : t.nickname = some n) :
      ∀ u ∈ r'.snapshot.types, u.nickname = some n → u.isAbstract = true := by
    intro u hu
    rw [h.snapshot] at hu
    exact hshared hn u (Snapshot.mem_types_without.1 hu).1
  cases ho : (r.nicknames c).outcome with
  | error e => exact (h.outcome_eq_error_iff hc).2 ho
  | ok names =>
    cases ho' : (r'.nicknames c).outcome with
    | error e =>
      rw [h.outcome_eq_error_iff hc, ho] at ho'
      cases ho'
    | ok names' =>
      refine congrArg Except.ok (NicknameSet.toList_inj.1 ?_)
      refine (increasing_of_nicknames ho').ext (increasing_of_nicknames ho) fun n => ⟨fun hn' => ?_, fun hn => ?_⟩
      · by_contra hn
        obtain ⟨_, _, hnickname, hu⟩ := (h.mem_only_without_iff ht ha ho ho').1 ⟨hn', hn⟩
        obtain ⟨other, hother, hconcrete⟩ := hu.next
        rw [isAbstract_of_carrier? (hshared' hnickname) hother] at hconcrete
        cases hconcrete
      · by_contra hn'
        obtain ⟨_, _, hnickname, hf⟩ := (h.mem_only_with_iff ht ha ho ho').1 ⟨hn, hn'⟩
        obtain ⟨other, hother, hconcrete⟩ := hf.answered
        rw [isAbstract_of_carrier? (hshared hnickname) hother] at hconcrete
        cases hconcrete

end Without

/-- Taking an abstract type away that nothing refers to, and that is not the root of operations, changes the listed
operations by its own nickname at most. Synonyms and denied names apart, that one is listed only then exactly if the
type hid a live operation of a concrete type that another type leads to; and it is listed only before exactly if a
concrete type answers for it, and of the types below the root the one taken away is alone to carry it. Where all types
that carry its nickname are abstract the list stays. -/
theorem nicknames_without {s : Snapshot} {t : TypeRecord} (hr : ofSnapshot s = .ok r) (ht : t ∈ s.types)
    (ha : t.isAbstract = true) (hplain : ¬ Kind.IsRoot t.name) (hu : s.Unreferenced t.name) :
    ∃ r', ofSnapshot (s.without t.name) = .ok r' ∧ ∀ (forced : List String) (c : Config), c.operationRoot ≠ t.name →
      ((∀ u ∈ s.types, u.nickname.isSome = true → u.nickname = t.nickname → u.isAbstract = true) →
        ((r'.forceAll forced).2.nicknames c).outcome = ((r.forceAll forced).2.nicknames c).outcome) ∧
      (∀ e, ((r'.forceAll forced).2.nicknames c).outcome = .error e ↔
        ((r.forceAll forced).2.nicknames c).outcome = .error e) ∧
      ∀ names names', ((r.forceAll forced).2.nicknames c).outcome = .ok names →
        ((r'.forceAll forced).2.nicknames c).outcome = .ok names' → ∀ n,
          (n ∈ names'.toList ∧ n ∉ names.toList ↔ n ∉ c.synonyms ∧ n ∉ c.denyList ∧ t.nickname = some n ∧
            (r.forceAll forced).2.Uncovers (r'.forceAll forced).2 c.operationRoot t.name n) ∧
          (n ∈ names.toList ∧ n ∉ names'.toList ↔ n ∉ c.synonyms ∧ n ∉ c.denyList ∧ t.nickname = some n ∧
            (r.forceAll forced).2.FoundBy c.operationRoot t.name n) := by
  obtain ⟨r', hr', hwithout⟩ := exists_without hr hu hplain
  refine ⟨r', hr', fun forced c hc => ?_⟩
  have h := hwithout.revealed forced
  obtain ⟨rfl, _⟩ := ofSnapshot_eq_ok_iff.1 hr
  rw [forceAll_eq, forceAll_eq]
  refine ⟨fun hall => h.outcome_nicknames ht ha hall hc, fun e => h.outcome_eq_error_iff hc, ?_⟩
  intro names names' hnames hnames' n
  exact ⟨h.mem_only_without_iff ht ha hnames hnames', h.mem_only_with_iff ht ha hnames hnames'⟩

/-- Two abstract types: one comes before a concrete type of its nickname, the other shares one with the abstract root. -/
def shadowed : Registry where
  snapshot :=
    { types :=
        [⟨"VipsOperation", some "GObject", some "operation", true, false⟩,
          ⟨"VipsBase", some "VipsOperation", some "invert", true, false⟩,
          ⟨"VipsInvert", some "VipsOperation", some "invert", false, false⟩,
          ⟨"VipsAvg", some "VipsOperation", some "avg", false, false⟩,
          ⟨"VipsSpare", some "VipsOperation", some "operation", true, false⟩]
      operations := .ofList [("invert", ⟨"", false, []⟩), ("avg", ⟨"", false, []⟩)]
      enums := {}
      properties := []
      lazyTypes := [] }
  sound := by decide
  hidden := []

theorem unreferenced_shadowed (hp : ∀ t ∈ shadowed.snapshot.types, t.name ≠ name → t.parent ≠ some name) :
    shadowed.snapshot.Unreferenced name where
  parents := hp
  arguments e he a ha := by
    have hnone : ∀ e ∈ shadowed.snapshot.operations.entries, e.2.arguments = [] := by decide
    rw [hnone e he] at ha
    cases ha
  properties _ hp := absurd hp List.not_mem_nil
  enums := List.not_mem_nil
  lazyTypes := List.not_mem_nil

theorem outcome_nicknames_shadowed : (shadowed.nicknames .bare).outcome = .ok ⟨#["avg"]⟩ := by
  have hlisted : ["VipsBase", "VipsInvert", "VipsAvg", "VipsSpare"].filterMap shadowed.liveNickname? = ["avg"] := by
    decide
  exact outcome_nicknames_of_leaves (by decide) (by decide) (by decide) (by decide) hlisted

def unshadowed : Registry where
  snapshot := shadowed.snapshot.without "VipsBase"
  sound := by decide
  hidden := []

theorem outcome_nicknames_unshadowed : (unshadowed.nicknames .bare).outcome = .ok ⟨#["avg", "invert"]⟩ := by
  have hlisted : ["VipsInvert", "VipsAvg", "VipsSpare"].filterMap unshadowed.liveNickname? = ["invert", "avg"] := by
    decide
  have hsorted : sortedNames (sortedNames ["invert", "avg"] ++ Config.bare.synonyms) = ["avg", "invert"] := by decide
  rw [outcome_nicknames_of_leaves (by decide) (by decide) (by decide) (by decide) hlisted, hsorted]
  rfl

theorem nicknames_without_shadowed : ofSnapshot shadowed.snapshot = .ok shadowed ∧
    (∀ name ∈ ["VipsSpare", "VipsBase"], shadowed.isAbstract name = true ∧ ¬ Kind.IsRoot name ∧
      shadowed.snapshot.Unreferenced name ∧ Config.bare.operationRoot ≠ name) ∧
    (∃ r', ofSnapshot (shadowed.snapshot.without "VipsSpare") = .ok r' ∧
      (r'.nicknames .bare).outcome = .ok ⟨#["avg"]⟩) ∧
    ofSnapshot (shadowed.snapshot.without "VipsBase") = .ok unshadowed ∧
    shadowed.Uncovers unshadowed "VipsOperation" "VipsBase" "invert" := by
  have hfresh : ofSnapshot shadowed.snapshot = .ok shadowed := ofSnapshot_eq_ok_iff.2 ⟨rfl, rfl⟩
  have hwithout : ofSnapshot (shadowed.snapshot.without "VipsBase") = .ok unshadowed :=
    ofSnapshot_eq_ok_iff.2 ⟨rfl, rfl⟩
  have hspare : ⟨"VipsSpare", some "VipsOperation", some "operation", true, false⟩ ∈ shadowed.snapshot.types := by
    decide
  have hbase : ⟨"VipsBase", some "VipsOperation", some "invert", true, false⟩ ∈ shadowed.snapshot.types := by decide
  have hplain : ¬ Kind.IsRoot "VipsSpare" := Bool.false_ne_true
  have hplain' : ¬ Kind.IsRoot "VipsBase" := Bool.false_ne_true
  have hunreferenced : shadowed.snapshot.Unreferenced "VipsSpare" := unreferenced_shadowed (by decide)
  have hunreferenced' : shadowed.snapshot.Unreferenced "VipsBase" := unreferenced_shadowed (by decide)
  have hroot : Config.bare.operationRoot ≠ "VipsSpare" := by decide
  have hroot' : Config.bare.operationRoot ≠ "VipsBase" := by decide
  obtain ⟨r', hr', hlists⟩ := nicknames_without hfresh hspare rfl hplain hunreferenced
  obtain ⟨hsame, _⟩ := hlists [] .bare hroot
  obtain ⟨q, hq, hlists'⟩ := nicknames_without hfresh hbase rfl hplain' hunreferenced'
  obtain rfl := Except.ok.inj (hq.symm.trans hwithout)
  obtain ⟨_, _, hchanges⟩ := hlists' [] .bare hroot'
  obtain ⟨honly, _⟩ := hchanges _ _ outcome_nicknames_shadowed outcome_nicknames_unshadowed "invert"
  obtain ⟨_, _, _, huncovers⟩ := honly.1 (by decide)
  refine ⟨hfresh, ?_, ⟨r', hr', (hsame (by decide)).trans outcome_nicknames_shadowed⟩, hwithout, huncovers⟩
  simp only [List.mem_cons, List.not_mem_nil, or_false]
  rintro name (rfl | rfl)
  · exact ⟨by decide, hplain, hunreferenced, hroot⟩
  · exact ⟨by decide, hplain', hunreferenced', hroot'⟩

theorem nicknames_without_base : ofSnapshot shadowed.snapshot = .ok shadowed ∧
    ⟨"VipsBase", some "VipsOperation", some "invert", true, false⟩ ∈ shadowed.snapshot.types ∧
    ¬ Kind.IsRoot "VipsBase" ∧ shadowed.snapshot.Unreferenced "VipsBase" ∧
    Config.bare.operationRoot ≠ "VipsBase" ∧
    ofSnapshot (shadowed.snapshot.without "VipsBase") = .ok unshadowed ∧
    (shadowed.nicknames .bare).outcome = .ok ⟨#["avg"]⟩ ∧
    (unshadowed.nicknames .bare).outcome = .ok ⟨#["avg", "invert"]⟩ := by
  have hplain : ¬ Kind.IsRoot "VipsBase" := Bool.false_ne_true
  have hunreferenced : shadowed.snapshot.Unreferenced "VipsBase" := unreferenced_shadowed (by decide)
  exact ⟨ofSnapshot_eq_ok_iff.2 ⟨rfl, rfl⟩, by decide, hplain, hunreferenced, by decide,
    ofSnapshot_eq_ok_iff.2 ⟨rfl, rfl⟩, outcome_nicknames_shadowed, outcome_nicknames_unshadowed⟩

end Registry

end Autodoc
