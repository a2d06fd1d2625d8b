import Mathlib.Data.Set.Finite.List
import Mathlib.Order.Preorder.Finite
import Autodoc.Proofs.Kinds
import Autodoc.Proofs.Validation

namespace Autodoc

namespace Snapshot

variable {s : Snapshot} {type : String}

/-- The way up from a type comes to a circle without roots, at once or later. -/
def LeadsIntoCircle (s : Snapshot) (type : String) : Prop :=
  ∃ upper, Relation.ReflTransGen s.PlainParentOf upper type ∧ Relation.TransGen s.PlainParentOf upper upper

theorem above_of_plain {upper lower : String} (h : Relation.TransGen s.PlainParentOf upper lower) :
    s.Above upper lower :=
  Relation.TransGen.mono (fun _ _ hp => hp.1) _ _ h

theorem exists_parent_of_not_grounded (h : ¬ s.Grounded type) :
    ∃ parent, s.PlainParentOf parent type ∧ ¬ s.Grounded parent := by
  cases hp : s.parent? type with
  | none => exact absurd (.loose hp) h
  | some parent =>
    have hr : ¬ Kind.IsRoot parent := fun hr => h (.root hp hr)
    exact ⟨parent, ⟨parentOf_of_parent? hp, hr⟩, fun hg => h (.step hp hg)⟩

/-- There are not as many types as a way up has steps that never ends, so it meets a type twice. -/
theorem leadsIntoCircle_of_not_grounded (h : ¬ s.Grounded type) : s.LeadsIntoCircle type := by
  choose! next hnext hgoesOn using fun type (ht : ¬ s.Grounded type) => exists_parent_of_not_grounded ht
  have hstays (n : Nat) : ¬ s.Grounded (next^[n] type) := by
    induction n with
    | zero => exact h
    | succ n ih =>
      rw [Function.iterate_succ_apply']
      exact hgoesOn _ ih
  have hstep (n : Nat) : s.PlainParentOf (next^[n + 1] type) (next^[n] type) := by
    rw [Function.iterate_succ_apply']
    exact hnext _ (hstays n)
  have hclimb (m n : Nat) : Relation.ReflTransGen s.PlainParentOf (next^[m + n] type) (next^[m] type) := by
    induction n with
    | zero => exact .refl
    | succ n ih => exact .head (hstep (m + n)) ih
  have hrecorded (n : Nat) : next^[n] type ∈ {name | name ∈ s.types.map (·.name)} := by
    obtain ⟨t, ht, hname, _⟩ := (hstep n).1
    exact List.mem_map.2 ⟨t, ht, hname⟩
  obtain ⟨m, n, hmn, hsame⟩ := Set.Finite.exists_lt_map_eq_of_forall_mem hrecorded (List.finite_toSet _)
  obtain ⟨k, rfl⟩ := Nat.exists_eq_add_of_lt hmn
  have hup : Relation.ReflTransGen s.PlainParentOf (next^[m] type) type := by
    simpa only [Nat.zero_add, Function.iterate_zero, id_eq] using hclimb 0 m
  have hcircle : Relation.TransGen s.PlainParentOf (next^[m + k + 1] type) (next^[m] type) :=
    .head' (hstep _) (hclimb m k)
  exact ⟨_, hup, hsame ▸ hcircle⟩

theorem not_grounded_of_circle (hd : (s.types.map (·.name)).Nodup)
    (h : Relation.TransGen s.PlainParentOf type type) : ¬ s.Grounded type := by
  rw [grounded_iff, not_not]
  exact climb_of_circle hd h _

theorem Grounded.parent (hd : (s.types.map (·.name)).Nodup) (h : s.Grounded type) {parent : String}
    (hp : s.PlainParentOf parent type) : s.Grounded parent := by
  have hparent := (parent?_eq_some_iff hd).2 hp.1
  cases h with
  | loose hnone => cases hnone.symm.trans hparent
  | root hroot hr =>
    cases hroot.symm.trans hparent
    exact absurd hr hp.2
  | step hstep hg =>
    cases hstep.symm.trans hparent
    exact hg

theorem not_grounded_iff (hd : (s.types.map (·.name)).Nodup) : ¬ s.Grounded type ↔ s.LeadsIntoCircle type := by
  refine ⟨leadsIntoCircle_of_not_grounded, ?_⟩
  rintro ⟨upper, hup, hcircle⟩ hg
  have hground : s.Grounded upper := by
    clear hcircle
    induction hup using Relation.ReflTransGen.head_induction_on with
    | refl => exact hg
    | head hp _ ih => exact ih.parent hd hp
  exact not_grounded_of_circle hd hcircle hground

theorem above_self_of_child (hd : (s.types.map (·.name)).Nodup) {child : String} (hp : s.ParentOf type child)
    (hc : s.Above child child) : s.Above type type := by
  obtain ⟨parent, hup, hparent⟩ := Relation.TransGen.tail'_iff.1 hc
  obtain rfl := hparent.unique hd hp
  exact .head' hp hup

theorem above_self_iff_child (hd : (s.types.map (·.name)).Nodup) :
    s.Above type type ↔ ∃ child, s.ParentOf type child ∧ s.Above child child := by
  constructor
  · intro h
    obtain ⟨child, hp, hdown⟩ := Relation.TransGen.head'_iff.1 h
    exact ⟨child, hp, .tail' hdown hp⟩
  · rintro ⟨child, hp, hc⟩
    exact above_self_of_child hd hp hc

theorem firstWith_chains_iff : FirstWith (fun phase => ¬ s.Passes phase) Phase.all .chains ↔
    s.Passes .names ∧ s.Passes .parents ∧ ¬ s.Passes .chains := by
  constructor
  · rintro ⟨before, after, hall, hbad, hbefore⟩
    have hpasses {phase : Phase} (h : phase ∈ before) : s.Passes phase := not_not.1 (hbefore phase h)
    rcases before with _ | ⟨first, _ | ⟨second, before⟩⟩
    · cases hall
    · cases hall
    · simp only [Phase.all, List.cons_append, List.cons.injEq] at hall
      obtain ⟨rfl, rfl, _⟩ := hall
      exact ⟨hpasses List.mem_cons_self, hpasses (List.mem_cons_of_mem _ List.mem_cons_self), hbad⟩
  · rintro ⟨hnames, hparents, hbad⟩
    refine ⟨[.names, .parents], _, rfl, hbad, ?_⟩
    exact List.forall_mem_cons.2 ⟨not_not.2 hnames, List.forall_mem_singleton.2 (not_not.2 hparents)⟩

end Snapshot

namespace Registry

variable {s : Snapshot} {name : String}

theorem ofSnapshot_eq_cycle_iff : ofSnapshot s = .error (.cycle name) ↔ s.Passes .names ∧ s.Passes .parents ∧
    ∃ t, t.name = name ∧ FirstWith (fun t => ¬ Kind.IsRoot t.name ∧ s.LeadsIntoCircle t.name) s.types t := by
  rw [(ofSnapshot_reports_first s).2]
  constructor
  · rintro ⟨phase, hfirst, hreports⟩
    cases hreports with
    | @chain t ht =>
      obtain ⟨hnames, hparents, _⟩ := Snapshot.firstWith_chains_iff.1 hfirst
      simp only [Snapshot.not_grounded_iff hnames] at ht
      exact ⟨hnames, hparents, t, rfl, ht⟩
  · rintro ⟨hnames, hparents, t, rfl, ht⟩
    simp only [← Snapshot.not_grounded_iff hnames] at ht
    have hchains : ¬ s.Passes .chains := fun h => ht.holds.2 (h t ht.mem ht.holds.1)
    exact ⟨.chains, Snapshot.firstWith_chains_iff.2 ⟨hnames, hparents, hchains⟩, .chain ht⟩

/-- The type that is reported for a circle is the first one, roots apart, from which the way up comes to a circle. The
circle is there: the type or one of its ancestors is its own ancestor. The type itself is one exactly when it is the
parent of a type that is its own ancestor, and not when it only stands below the circle. -/
theorem cycle_reported (h : ofSnapshot s = .error (.cycle name)) :
    (∃ t, t.name = name ∧ FirstWith (fun t => ¬ Kind.IsRoot t.name ∧ s.LeadsIntoCircle t.name) s.types t) ∧
    (∃ upper, s.Above upper upper ∧ (upper = name ∨ s.Above upper name)) ∧
    (s.Above name name ↔ ∃ child, s.ParentOf name child ∧ s.Above child child) := by
  obtain ⟨hnames, _, t, rfl, hfirst⟩ := ofSnapshot_eq_cycle_iff.1 h
  refine ⟨⟨t, rfl, hfirst⟩, ?_, Snapshot.above_self_iff_child hnames⟩
  obtain ⟨_, upper, hup, hcircle⟩ := hfirst.holds
  refine ⟨upper, Snapshot.above_of_plain hcircle, ?_⟩
  rcases Relation.reflTransGen_iff_eq_or_transGen.1 hup with he | hup
  · exact .inl he.symm
  · exact .inr (Snapshot.above_of_plain hup)

/-- Two types that are each other's parents, and one that is recorded before them and stands below. -/
def straying : Snapshot where
  types :=
    [⟨"VipsAffine", some "VipsResample", none, false, false⟩, ⟨"VipsResample", some "VipsWarp", none, false, false⟩,
      ⟨"VipsWarp", some "VipsResample", none, false, false⟩]
  operations := {}
  enums := {}
  properties := []
  lazyTypes := []

theorem ofSnapshot_straying : ofSnapshot straying = .error (.cycle "VipsAffine") :=
  ofSnapshot_eq_error_iff.2 (by decide)

theorem cycle_reported_below : ofSnapshot straying = .error (.cycle "VipsAffine") ∧
    (SnapshotError.cycle "VipsAffine").message = "type `VipsAffine` is its own ancestor" ∧
    ¬ straying.Above "VipsAffine" "VipsAffine" := by
  refine ⟨ofSnapshot_straying, by decide, fun h => ?_⟩
  obtain ⟨_, ⟨t, ht, _, hp⟩, _⟩ := Relation.TransGen.head'_iff.1 h
  have hnone : ∀ t ∈ straying.types, t.parent ≠ some "VipsAffine" := by decide
  exact hnone t ht hp

theorem cycle_reported_straying : ofSnapshot straying = .error (.cycle "VipsAffine") ∧
    (∃ upper, straying.Above upper upper ∧ (upper = "VipsAffine" ∨ straying.Above upper "VipsAffine")) ∧
    (straying.Above "VipsAffine" "VipsAffine" ↔
      ∃ child, straying.ParentOf "VipsAffine" child ∧ straying.Above child child) :=
  ⟨ofSnapshot_straying, (cycle_reported ofSnapshot_straying).2⟩

end Registry

end Autodoc
