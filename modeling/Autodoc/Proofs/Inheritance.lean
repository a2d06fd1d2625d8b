import Autodoc.Proofs.Kinds
import Autodoc.Proofs.Validation

namespace Autodoc

section

variable {parentOf parentOf' : String → String → Prop} {type : String}

/-- The first root on the way up from a type. -/
inductive NearestRoot (parentOf : String → String → Prop) : String → String → Prop
  | parent {type root : String} (hp : parentOf root type) (hr : Kind.IsRoot root) : NearestRoot parentOf type root
  | above {type parent root : String} (hp : parentOf parent type) (hr : ¬ Kind.IsRoot parent)
      (h : NearestRoot parentOf parent root) : NearestRoot parentOf type root

/-- The way up from a type meets no root, and it ends. -/
inductive Rootless (parentOf : String → String → Prop) : String → Prop
  | top {type : String} (h : ∀ parent, ¬ parentOf parent type) : Rootless parentOf type
  | above {type parent : String} (hp : parentOf parent type) (hr : ¬ Kind.IsRoot parent)
      (h : Rootless parentOf parent) : Rootless parentOf type

theorem NearestRoot.isRoot {root : String} (h : NearestRoot parentOf type root) : Kind.IsRoot root := by
  induction h with
  | parent _ hr => exact hr
  | above _ _ _ ih => exact ih

theorem NearestRoot.congr {root : String} (h : NearestRoot parentOf type root) (ht : ¬ Kind.IsRoot type)
    (hsame : ∀ parent child, ¬ Kind.IsRoot child → (parentOf parent child ↔ parentOf' parent child)) :
    NearestRoot parentOf' type root := by
  induction h with
  | parent hp hr => exact .parent ((hsame _ _ ht).1 hp) hr
  | above hp hr _ ih => exact .above ((hsame _ _ ht).1 hp) hr (ih hr)

theorem Rootless.congr (h : Rootless parentOf type) (ht : ¬ Kind.IsRoot type)
    (hsame : ∀ parent child, ¬ Kind.IsRoot child → (parentOf parent child ↔ parentOf' parent child)) :
    Rootless parentOf' type := by
  induction h with
  | top h => exact .top fun parent hp => h parent ((hsame _ _ ht).2 hp)
  | above hp hr _ ih => exact .above ((hsame _ _ ht).1 hp) hr (ih hr)

end

theorem Kind.ne_unknown_of_ofRoot? {root : String} {k : Kind} (h : ofRoot? root = some k) : k ≠ .unknown := by
  rintro rfl
  have hm := mem_roots_of_ofRoot? h
  simp [roots] at hm

namespace Snapshot

variable {s : Snapshot} {type : String}

theorem parent?_eq_none_iff (hd : (s.types.map (·.name)).Nodup) :
    s.parent? type = none ↔ ∀ parent, ¬ s.ParentOf parent type := by
  constructor
  · intro h parent hp
    rw [(parent?_eq_some_iff hd).2 hp] at h
    cases h
  · intro h
    cases hp : s.parent? type with
    | none => rfl
    | some parent => exact absurd (parentOf_of_parent? hp) (h parent)

theorem climb_of_nearestRoot (hd : (s.types.map (·.name)).Nodup) {root : String} {k : Kind}
    (h : NearestRoot s.ParentOf type root) (hk : Kind.ofRoot? root = some k) {fuel : Nat}
    (hend : s.climb fuel type ≠ .endless) : s.climb fuel type = .root k := by
  -- a climb that has not run out of steps has not run out of them further up either
  induction h generalizing fuel with
  | parent hp _ =>
    cases fuel with
    | zero => exact absurd rfl hend
    | succ fuel => simp only [climb, (parent?_eq_some_iff hd).2 hp, hk]
  | above hp hr _ ih =>
    cases fuel with
    | zero => exact absurd rfl hend
    | succ fuel =>
      have hnone := Option.not_isSome_iff_eq_none.1 hr
      simp only [climb, (parent?_eq_some_iff hd).2 hp, hnone] at hend ⊢
      exact ih hk hend

theorem climb_of_rootless (hd : (s.types.map (·.name)).Nodup) (h : Rootless s.ParentOf type) {fuel : Nat}
    (hend : s.climb fuel type ≠ .endless) : s.climb fuel type = .loose := by
  induction h generalizing fuel with
  | top h =>
    cases fuel with
    | zero => exact absurd rfl hend
    | succ fuel => simp only [climb, (parent?_eq_none_iff hd).2 h]
  | above hp hr _ ih =>
    cases fuel with
    | zero => exact absurd rfl hend
    | succ fuel =>
      have hnone := Option.not_isSome_iff_eq_none.1 hr
      simp only [climb, (parent?_eq_some_iff hd).2 hp, hnone] at hend ⊢
      exact ih hend

/-- The way up from a type leads to a root or it ends without one, unless it goes in circles. -/
theorem Grounded.nearestRoot_or_rootless (hd : (s.types.map (·.name)).Nodup) (h : s.Grounded type) :
    (∃ root, NearestRoot s.ParentOf type root) ∨ Rootless s.ParentOf type := by
  induction h with
  | loose h => exact .inr (.top ((parent?_eq_none_iff hd).1 h))
  | @root type parent h hr => exact .inl ⟨parent, .parent (parentOf_of_parent? h) hr⟩
  | @step type parent h _ ih =>
    have hp := parentOf_of_parent? h
    by_cases hr : Kind.IsRoot parent
    · exact .inl ⟨parent, .parent hp hr⟩
    · rcases ih with ⟨root, hroot⟩ | hloose
      · exact .inl ⟨root, .above hp hr hroot⟩
      · exact .inr (.above hp hr hloose)

theorem WellFormed.grounded (h : s.WellFormed) (ht : ¬ Kind.IsRoot type) : s.Grounded type := by
  cases hp : s.parent? type with
  | none => exact .loose hp
  | some parent =>
    have hnone := Option.not_isSome_iff_eq_none.1 ht
    exact grounded_iff.2 (h.chains type ((parentOf_of_parent? hp).mem_declared hnone))

theorem WellFormed.kindOf_of_nearestRoot (h : s.WellFormed) (ht : ¬ Kind.IsRoot type) {root : String} {k : Kind}
    (hroot : NearestRoot s.ParentOf type root) (hk : Kind.ofRoot? root = some k) : s.kindOf type = k := by
  have hnone := Option.not_isSome_iff_eq_none.1 ht
  have hchain : s.chain type = .root k := climb_of_nearestRoot h.distinct hroot hk (grounded_iff.1 (h.grounded ht))
  simp only [kindOf, hnone, hchain]

theorem WellFormed.kindOf_of_rootless (h : s.WellFormed) (ht : ¬ Kind.IsRoot type)
    (hloose : Rootless s.ParentOf type) : s.kindOf type = .unknown := by
  have hnone := Option.not_isSome_iff_eq_none.1 ht
  have hchain : s.chain type = .loose := climb_of_rootless h.distinct hloose (grounded_iff.1 (h.grounded ht))
  simp only [kindOf, hnone, hchain]

theorem kindOf_of_root {root : String} {k : Kind} (h : Kind.ofRoot? root = some k) : s.kindOf root = k := by
  simp only [kindOf, h]

theorem WellFormed.kindOf_cases (h : s.WellFormed) (ht : ¬ Kind.IsRoot type) :
    (∃ root k, NearestRoot s.ParentOf type root ∧ Kind.ofRoot? root = some k ∧ s.kindOf type = k) ∨
      Rootless s.ParentOf type ∧ s.kindOf type = .unknown := by
  rcases (h.grounded ht).nearestRoot_or_rootless h.distinct with ⟨root, hroot⟩ | hloose
  · obtain ⟨k, hk⟩ := Option.isSome_iff_exists.1 hroot.isRoot
    exact .inl ⟨root, k, hroot, hk, h.kindOf_of_nearestRoot ht hroot hk⟩
  · exact .inr ⟨hloose, h.kindOf_of_rootless ht hloose⟩

theorem WellFormed.kindOf_eq_unknown_iff (h : s.WellFormed) (ht : ¬ Kind.IsRoot type) :
    s.kindOf type = .unknown ↔ Rootless s.ParentOf type := by
  constructor
  · intro hunknown
    rcases h.kindOf_cases ht with ⟨root, k, _, hk, hkind⟩ | ⟨hloose, _⟩
    · exact absurd (hkind.symm.trans hunknown) (Kind.ne_unknown_of_ofRoot? hk)
    · exact hloose
  · exact h.kindOf_of_rootless ht

/-- Kinds come from the parents of the types that are no roots, and from nothing else. -/
theorem WellFormed.kindOf_congr {s' : Snapshot} (h : s.WellFormed) (h' : s'.WellFormed)
    (hsame : ∀ parent child, ¬ Kind.IsRoot child → (s.ParentOf parent child ↔ s'.ParentOf parent child))
    (type : String) : s'.kindOf type = s.kindOf type := by
  by_cases ht : Kind.IsRoot type
  · obtain ⟨k, hk⟩ := Option.isSome_iff_exists.1 ht
    rw [kindOf_of_root hk, kindOf_of_root hk]
  · rcases h.kindOf_cases ht with ⟨root, k, hroot, hk, hkind⟩ | ⟨hloose, hkind⟩
    · rw [hkind]
      exact h'.kindOf_of_nearestRoot ht (hroot.congr ht hsame) hk
    · rw [hkind]
      exact h'.kindOf_of_rootless ht (hloose.congr ht hsame)

end Snapshot

namespace Registry

/-- Roots keep their kinds, every other type has that of its nearest root or, where there is none, no known one, and
registries that give all types but the roots the same parents give all types the same kinds. -/
theorem kind_inherited (r : Registry) :
    (∀ root k, Kind.ofRoot? root = some k → (r.describe root).kind = k) ∧
    (∀ type, ¬ Kind.IsRoot type →
      ((∃ root, NearestRoot r.snapshot.ParentOf type root) ∨ Rootless r.snapshot.ParentOf type) ∧
      (∀ root k, NearestRoot r.snapshot.ParentOf type root → Kind.ofRoot? root = some k →
        (r.describe type).kind = k) ∧
      ((r.describe type).kind = .unknown ↔ Rootless r.snapshot.ParentOf type)) ∧
    ∀ q : Registry, (∀ parent child, ¬ Kind.IsRoot child →
      (r.snapshot.ParentOf parent child ↔ q.snapshot.ParentOf parent child)) →
      ∀ type, (q.describe type).kind = (r.describe type).kind := by
  refine ⟨?roots, ?others, ?same⟩
  case roots =>
    intro root k hk
    exact Snapshot.kindOf_of_root hk
  case others =>
    intro type ht
    refine ⟨(r.wellFormed.grounded ht).nearestRoot_or_rootless r.wellFormed.distinct, ?_, ?_⟩
    · intro root k hroot hk
      exact r.wellFormed.kindOf_of_nearestRoot ht hroot hk
    · exact r.wellFormed.kindOf_eq_unknown_iff ht
  case same =>
    intro q hsame type
    exact r.wellFormed.kindOf_congr q.wellFormed hsame type

/-- A root in the middle of a chain, recorded after the types below it and below a root of another kind. -/
example : Snapshot.kindOf ⟨[⟨"VipsCrop", some "VipsSize", none, false, false⟩,
    ⟨"VipsSize", some "GEnum", none, false, false⟩, ⟨"GEnum", some "GObject", none, false, false⟩], {}, {}, [], []⟩
    "VipsCrop" = .enum := by decide

end Registry

end Autodoc
