import Autodoc.Proofs.Ancestry
import Autodoc.Proofs.EnumTypes
import Autodoc.Proofs.Kinds

namespace Autodoc

namespace Registry

variable {r : Registry} {c : Config}

/-- No hidden type stands in the way from a type down to another. -/
def Shown (r : Registry) (upper type : String) : Prop :=
  type ∉ r.hidden ∧
    ∀ between, r.snapshot.Above upper between → r.snapshot.Above between type → between ∉ r.hidden

theorem Descends.to_parent {root parent type : String} (h : r.Descends root type)
    (hp : r.snapshot.ParentOf parent type) : r.Descends root parent ∨ parent = root := by
  obtain ⟨b, hb, hs, _⟩ := Relation.TransGen.tail'_iff.1 h
  obtain rfl := hs.unique r.wellFormed.distinct hp
  rcases Relation.reflTransGen_iff_eq_or_transGen.1 hb with he | hb
  · exact .inr he
  · exact .inl hb

/-- What is above a type lies on the way that leads down to it, or is where that way starts or above. -/
theorem Descends.compare {root upper type : String} (h : r.Descends root type)
    (hu : r.snapshot.Above upper type) :
    r.Descends root upper ∨ upper = root ∨ r.snapshot.Above upper root := by
  induction hu using Relation.TransGen.head_induction_on with
  | single hp => exact (h.to_parent hp).imp_right .inl
  | head hp _ ih =>
    rcases ih with hd | rfl | hup
    · exact (hd.to_parent hp).imp_right .inl
    · exact .inr (.inr (.single hp))
    · exact .inr (.inr (.head hp hup))

theorem Descends.shown {root type : String} (h : r.Descends root type)
    (hc : ¬ r.snapshot.Above root root) : r.Shown root type := by
  refine ⟨h.not_mem_hidden, ?_⟩
  intro between hroot hbetween
  rcases h.compare hbetween with hd | rfl | hup
  · exact hd.not_mem_hidden
  · exact absurd hroot hc
  · exact absurd (hroot.trans hup) hc

theorem Shown.descends {root type : String} (h : r.Shown root type) (hup : r.snapshot.Above root type) :
    r.Descends root type := by
  induction hup with
  | single hp => exact .single ⟨hp, h.1⟩
  | @tail parent type hup hp ih =>
    have hparent : r.Shown root parent := by
      refine ⟨h.2 parent hup (.single hp), ?_⟩
      exact fun between hroot hbetween => h.2 between hroot (hbetween.tail hp)
    exact (ih hparent).tail ⟨hp, h.1⟩

theorem descends_iff {root type : String} (hc : ¬ r.snapshot.Above root root) :
    r.Descends root type ↔ r.snapshot.Above root type ∧ r.Shown root type :=
  ⟨fun h => ⟨h.above, h.shown hc⟩, fun h => h.2.descends h.1⟩

theorem snapshot_forceAll (r : Registry) (names : List String) :
    (r.forceAll names).2.snapshot = r.snapshot := by
  induction names generalizing r with
  | nil => rfl
  | cons name names ih =>
    simp only [forceAll, force]
    split
    next q hq =>
      split at hq
      · cases hq
        exact ih _
      · cases hq
    next => exact ih r

theorem listedEnum?_congr {q : Registry} (h : q.snapshot = r.snapshot) : q.listedEnum? = r.listedEnum? := by
  cases q
  cases r
  cases h
  rfl

theorem listedEnum?_eq_some_iff {type name : String} : r.listedEnum? type = some name ↔
    name = type ∧ r.isAbstract type = false ∧ r.isAnonymous type = false ∧
      (r.describe type).kind = .enum := by
  have hname : (r.describe type).name = if r.isAnonymous type then none else some type := rfl
  have henum : (r.describe type).isEnum = true ↔ (r.describe type).kind = .enum := by
    rw [TypeDescriptor.isEnum, decide_eq_true_eq]
  rw [listedEnum?, hname, ← henum]
  cases r.isAbstract type with
  | true => simp
  | false =>
    cases r.isAnonymous type <;> cases (r.describe type).isEnum <;> simp [eq_comm]

/-- Below the root of enums, an enum type is any but the root itself. -/
theorem above_of_kind_enum {type : String} (hk : (r.describe type).kind = .enum) (hne : type ≠ "GEnum") :
    r.snapshot.Above "GEnum" type := by
  have hroot : Kind.ofRoot? "GEnum" = some .enum := rfl
  rcases Snapshot.root_of_kindOf hk (by decide) with h | ⟨root, h, hup⟩
  · exact absurd (Kind.ofRoot?_inj h hroot) hne
  · exact Kind.ofRoot?_inj h hroot ▸ hup

/-- The documented enum types increase, and they are the concrete enum types with a name that no type still
hidden keeps from the root of enums. -/
theorem mem_enumNames_iff (hroot : c.enumRoot = "GEnum")
    (hv : "GEnum" ∉ (r.forceAll c.lazyEnumTypes).2.hidden) (hc : ¬ r.snapshot.Above "GEnum" "GEnum") :
    ∃ names, (enumNames c r).outcome = .ok names ∧ Increasing names ∧
      ∀ type, type ∈ names ↔ type ≠ "GEnum" ∧ r.isAbstract type = false ∧ r.isAnonymous type = false ∧
        (r.describe type).kind = .enum ∧ (r.forceAll c.lazyEnumTypes).2.Shown "GEnum" type := by
  have hs : (r.forceAll c.lazyEnumTypes).2.snapshot = r.snapshot := snapshot_forceAll r _
  have hlisted : (r.forceAll c.lazyEnumTypes).2.listedEnum? = r.listedEnum? := listedEnum?_congr hs
  have hsees : (r.forceAll c.lazyEnumTypes).2.sees c.enumRoot = true := by
    have hhidden : (r.forceAll c.lazyEnumTypes).2.isHidden "GEnum" = false :=
      Bool.eq_false_iff.2 fun h => hv (isHidden_iff.1 h)
    rw [hroot, sees, hhidden]
    rfl
  have hcircle : ¬ (r.forceAll c.lazyEnumTypes).2.snapshot.Above "GEnum" "GEnum" := hs ▸ hc
  have hnames := outcome_enumNames (r := r) (c := c)
  rw [outcome_enumTypeNames, if_pos hsees, hlisted, hroot] at hnames
  refine ⟨_, hnames, sortedNames_increasing _, ?_⟩
  intro type
  simp only [mem_sortedNames, List.mem_filterMap, mem_below, descends_iff hcircle, listedEnum?_eq_some_iff]
  constructor
  · rintro ⟨_, ⟨hup, hshown⟩, rfl, habstract, hanonymous, hkind⟩
    exact ⟨fun he => hcircle (he ▸ hup), habstract, hanonymous, hkind, hshown⟩
  · rintro ⟨hne, habstract, hanonymous, hkind, hshown⟩
    exact ⟨type, ⟨hs ▸ above_of_kind_enum hkind hne, hshown⟩, rfl, habstract, hanonymous, hkind⟩

/-- An enum type that is forced, one that stays hidden and keeps another from the root, and a root among them. -/
def lateEnums : Registry where
  snapshot :=
    { types :=
        [⟨"VipsToken", some "GEnum", none, false, false⟩, ⟨"VipsSize", some "GEnum", none, false, false⟩,
          ⟨"VipsCrop", some "VipsSize", none, false, false⟩, ⟨"GFlags", some "VipsToken", none, false, false⟩]
      operations := {}
      enums := {}
      properties := []
      lazyTypes := ["VipsToken", "VipsSize"] }
  sound := by decide
  hidden := ["VipsToken", "VipsSize"]

theorem mem_enumNames_lateEnums : Config.default.enumRoot = "GEnum" ∧
    "GEnum" ∉ (lateEnums.forceAll Config.default.lazyEnumTypes).2.hidden ∧
    ¬ lateEnums.snapshot.Above "GEnum" "GEnum" ∧
    ∃ names, (enumNames .default lateEnums).outcome = .ok names ∧ Increasing names ∧
      "VipsToken" ∈ names ∧ "VipsCrop" ∉ names ∧ "GFlags" ∉ names := by
  have hroot : Config.default.enumRoot = "GEnum" := rfl
  have hhidden : "GEnum" ∉ (lateEnums.forceAll Config.default.lazyEnumTypes).2.hidden := by decide
  have hdistinct := lateEnums.wellFormed.distinct
  have htop {upper : String} : ¬ lateEnums.snapshot.Above upper "GEnum" := by
    intro h
    obtain ⟨parent, _, hp⟩ := Relation.TransGen.tail'_iff.1 h
    have hnone : lateEnums.snapshot.parent? "GEnum" = none := by decide
    rw [← Snapshot.parent?_eq_some_iff hdistinct, hnone] at hp
    cases hp
  obtain ⟨names, hnames, hincreasing, hmem⟩ := mem_enumNames_iff hroot hhidden htop
  refine ⟨hroot, hhidden, htop, names, hnames, hincreasing, (hmem _).2 ?_, ?_, ?_⟩
  · refine ⟨by decide, by decide, by decide, by decide, by decide, ?_⟩
    intro between hup hbetween
    rw [snapshot_forceAll] at hup hbetween
    have htoken : lateEnums.snapshot.ParentOf "GEnum" "VipsToken" := Snapshot.parentOf_of_parent? (by decide)
    obtain ⟨parent, hparent, hp⟩ := Relation.TransGen.tail'_iff.1 hbetween
    obtain rfl := hp.unique hdistinct htoken
    rcases Relation.reflTransGen_iff_eq_or_transGen.1 hparent with rfl | h
    · exact absurd hup htop
    · exact absurd h htop
  · intro h
    have hsize := ((hmem _).1 h).2.2.2.2.2 "VipsSize" (.single (Snapshot.parentOf_of_parent? (by decide)))
      (.single (Snapshot.parentOf_of_parent? (by decide)))
    exact hsize (by decide)
  · intro h
    exact absurd ((hmem _).1 h).2.2.2.1 (by decide)

end Registry

end Autodoc
