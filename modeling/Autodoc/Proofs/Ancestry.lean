import Autodoc.Proofs.Descent

namespace Autodoc

def Kind.IsRoot (type : String) : Prop := (Kind.ofRoot? type).isSome = true

namespace Snapshot

variable {s : Snapshot}

/-- The parent of a type, where it is no root. -/
def PlainParentOf (s : Snapshot) (parent child : String) : Prop :=
  s.ParentOf parent child ∧ ¬ Kind.IsRoot parent

theorem Above.through_root {upper lower : String} (h : s.Above upper lower) :
    (∃ root, Kind.IsRoot root ∧ Relation.ReflTransGen s.ParentOf upper root ∧ s.Above root lower) ∨
      Relation.TransGen s.PlainParentOf upper lower := by
  induction h with
  | single hp =>
    by_cases hr : Kind.IsRoot upper
    · exact .inl ⟨upper, hr, .refl, .single hp⟩
    · exact .inr (.single ⟨hp, hr⟩)
  | @tail b c hb hp ih =>
    rcases ih with ⟨root, hr, hu, hl⟩ | hplain
    · exact .inl ⟨root, hr, hu, hl.tail hp⟩
    · by_cases hr : Kind.IsRoot b
      · exact .inl ⟨b, hr, hb.to_reflTransGen, .single hp⟩
      · exact .inr (hplain.tail ⟨hp, hr⟩)

theorem climb_of_circle (hd : (s.types.map (·.name)).Nodup) {type : String}
    (h : Relation.TransGen s.PlainParentOf type type) (fuel : Nat) :
    s.climb fuel type = .endless := by
  induction fuel generalizing type with
  | zero => rfl
  | succ fuel ih =>
    obtain ⟨parent, hup, hp, hr⟩ := Relation.TransGen.tail'_iff.1 h
    have hcircle : Relation.TransGen s.PlainParentOf parent parent := .head' ⟨hp, hr⟩ hup
    have hparent := (parent?_eq_some_iff hd).2 hp
    have hroot : Kind.ofRoot? parent = none := Option.not_isSome_iff_eq_none.1 hr
    simp only [climb, hparent, hroot]
    exact ih hcircle

theorem WellFormed.no_plain_circle (h : s.WellFormed) (type : String) :
    ¬ Relation.TransGen s.PlainParentOf type type := by
  intro hc
  obtain ⟨child, ⟨_, hr⟩, _⟩ := Relation.TransGen.head'_iff.1 hc
  obtain ⟨parent, _, ⟨hp, _⟩⟩ := Relation.TransGen.tail'_iff.1 hc
  have hm := hp.mem_declared (Option.not_isSome_iff_eq_none.1 hr)
  exact h.chains type hm (climb_of_circle h.distinct hc _)

theorem WellFormed.above_self_iff (h : s.WellFormed) {type : String} :
    s.Above type type ↔ ∃ root, Kind.IsRoot root ∧ s.Above type root ∧ s.Above root type := by
  constructor
  · intro hc
    rcases hc.through_root with ⟨root, hr, hup, hdown⟩ | hplain
    · exact ⟨root, hr, hc.trans_left hup, hdown⟩
    · exact absurd hplain (h.no_plain_circle type)
  · rintro ⟨root, _, hup, hdown⟩
    exact hup.trans hdown

end Snapshot

namespace Registry

variable {r : Registry}

/-- Parents are unique, so all that is above a type lies on any circle through it. -/
theorem Descends.to_upper {type lower upper : String} (hc : r.Descends type type)
    (hd : r.Descends type lower) (hp : r.snapshot.ParentOf upper lower) :
    r.Descends type upper := by
  obtain ⟨b, hb, hs, _⟩ := Relation.TransGen.tail'_iff.1 hd
  obtain rfl := hs.unique r.wellFormed.distinct hp
  rcases Relation.reflTransGen_iff_eq_or_transGen.1 hb with rfl | hb
  · exact hc
  · exact hb

theorem Descends.to_above {type upper : String} (hc : r.Descends type type)
    (h : r.snapshot.Above upper type) : r.Descends type upper := by
  induction h using Relation.TransGen.head_induction_on with
  | single hp => exact hc.to_upper hc hp
  | head hp _ ih => exact hc.to_upper ih hp

theorem Descends.not_mem_hidden {upper lower : String} (h : r.Descends upper lower) :
    lower ∉ r.hidden := by
  obtain ⟨_, _, _, hh⟩ := Relation.TransGen.tail'_iff.1 h
  exact hh

theorem descends_self_iff {type : String} : r.Descends type type ↔
    r.snapshot.Above type type ∧ ∀ upper, r.snapshot.Above upper type → upper ∉ r.hidden := by
  constructor
  · intro hc
    exact ⟨hc.above, fun upper hu => (hc.to_above hu).not_mem_hidden⟩
  · rintro ⟨hc, hv⟩
    have down {upper : String} (h : r.snapshot.Above upper type) : r.Descends upper type := by
      induction h using Relation.TransGen.head_induction_on with
      | single hp => exact .single ⟨hp, hv type hc⟩
      | head hp h ih => exact .head ⟨hp, hv _ h⟩ ih
    exact down hc

/-- The names of all the types that a collection offers, with nothing turned down. -/
def offered (r : Registry) (root : String) : Logged ε (List String) :=
  r.collect root fun type => pure (some type)

theorem outcome_offered (root : String) :
    (r.offered root : Logged ε _).outcome = .ok (sortedNames (r.below root)) := by
  have h : (r.offered root : Logged ε _).outcome = .ok (sortedNames ((r.below root).filterMap some)) :=
    outcome_collect fun type _ => Logged.outcome_pure (some type)
  rw [h, List.filterMap_some]

/-- No type of a registry is its own ancestor unless a root is; a type that is one lies on a circle with a
root; and a collection offers the type that it starts from exactly on a circle of visible types. -/
theorem acyclic_iff_roots_acyclic (r : Registry) :
    ((∀ type, ¬ r.snapshot.Above type type) ↔
      ∀ root, Kind.IsRoot root → ¬ r.snapshot.Above root root) ∧
    ∀ type,
      (r.snapshot.Above type type ↔
        ∃ root, Kind.IsRoot root ∧ r.snapshot.Above type root ∧ r.snapshot.Above root type) ∧
      ∃ names, (r.offered type : Logged GenerateError _).outcome = .ok names ∧
        (type ∈ names ↔ r.snapshot.Above type type ∧
          ∀ upper, r.snapshot.Above upper type → upper ∉ r.hidden) := by
  refine ⟨⟨fun h root _ => h root, ?_⟩, ?_⟩
  · intro h type hc
    obtain ⟨root, hr, hup, hdown⟩ := r.wellFormed.above_self_iff.1 hc
    exact h root hr (hdown.trans hup)
  · intro type
    refine ⟨r.wellFormed.above_self_iff, _, outcome_offered type, ?_⟩
    rw [mem_sortedNames, mem_below, descends_self_iff]

/-- A root below a type that is recorded below it. -/
def circular : Registry where
  snapshot :=
    { types := [⟨"GEnum", some "VipsKind", none, false, false⟩, ⟨"VipsKind", some "GEnum", none, false, false⟩]
      operations := {}
      enums := {}
      properties := []
      lazyTypes := [] }
  sound := by decide
  hidden := []

theorem circular_above_self : Registry.ofSnapshot circular.snapshot = .ok circular ∧
    circular.snapshot.Above "VipsKind" "VipsKind" ∧ circular.snapshot.Above "GEnum" "GEnum" ∧
    ∃ names, (circular.offered "VipsKind" : Logged GenerateError _).outcome = .ok names ∧
      "VipsKind" ∈ names := by
  have hup : circular.snapshot.ParentOf "GEnum" "VipsKind" :=
    ⟨_, List.mem_cons_of_mem _ List.mem_cons_self, rfl, rfl⟩
  have hdown : circular.snapshot.ParentOf "VipsKind" "GEnum" := ⟨_, List.mem_cons_self, rfl, rfl⟩
  have hc : circular.snapshot.Above "VipsKind" "VipsKind" := .tail (.single hdown) hup
  refine ⟨ofSnapshot_eq_ok_iff.2 ⟨rfl, rfl⟩, hc, .tail (.single hup) hdown, _, outcome_offered _, ?_⟩
  rw [mem_sortedNames, mem_below, descends_self_iff]
  exact ⟨hc, fun _ _ => List.not_mem_nil⟩

end Registry

end Autodoc
