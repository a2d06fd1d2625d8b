import Mathlib.Data.List.Find
import Autodoc.Proofs.Merging
import Autodoc.Proofs.Nicknames
import Autodoc.Proofs.Validation

namespace Autodoc

namespace Snapshot

/-- The record that answers to a nickname: that of the first root that carries it, in the order of the roots, or where
no root does the first one that is recorded. -/
inductive Answers (s : Snapshot) (n : String) : TypeRecord → Prop
  | root {t : TypeRecord} (ht : t ∈ s.types)
      (h : FirstWith (fun root => ∃ u ∈ s.types, u.name = root ∧ u.nickname = some n) (Kind.roots.map Prod.fst)
        t.name) : Answers s n t
  | declared {t : TypeRecord} (hroots : ∀ u ∈ s.types, u.nickname = some n → ¬ Kind.IsRoot u.name)
      (h : FirstWith (fun u => u.nickname = some n) s.types t) : Answers s n t

theorem types_mergeAll (ss : List Snapshot) : (mergeAll ss).types = ss.flatMap (·.types) := by
  induction ss with
  | nil => rfl
  | cons s ss ih => rw [mergeAll_cons, merge, ih, List.flatMap_cons]

theorem exists_operation_mergeAll_iff {ss : List Snapshot} {n : String} :
    (∃ o, (mergeAll ss).operations.get? n = some o) ↔ ∃ s ∈ ss, n ∈ s.operations.keys := by
  have hkey (s : Snapshot) : (s.operations.get? n).isSome = true ↔ n ∈ s.operations.keys := by
    rw [Option.isSome_iff_ne_none, Table.get?, Ne, valueAt?_eq_none_iff, not_not, Table.keys]
  rw [← Option.isSome_iff_exists, get?_mergeAll operations rfl (fun _ _ => rfl), List.findSome?_isSome_iff]
  simp only [List.mem_reverse, hkey]

end Snapshot

namespace Registry

variable {r : Registry} {n : String} {t : TypeRecord}

theorem carriesNickname_iff {name : String} : decide (r.nickname? name = some n) = true ↔
    ∃ u ∈ r.snapshot.types, u.name = name ∧ u.nickname = some n := by
  rw [decide_eq_true_iff, nickname?_eq_some_iff]

theorem find?_declared (hroots : ∀ u ∈ r.snapshot.types, u.nickname = some n → ¬ Kind.IsRoot u.name) :
    (r.snapshot.declared.find? fun name => r.nickname? name = some n) =
      (r.snapshot.types.find? fun u => u.nickname = some n).map (·.name) := by
  rw [Snapshot.declared, List.find?_filter, List.find?_map]
  congr 1
  apply List.find?_congr
  intro u hu
  rw [Function.comp_apply, nickname?_of_mem hu, Bool.eq_iff_iff, decide_eq_true_iff, decide_eq_true_iff]
  refine ⟨fun h => h.2, fun h => ⟨?_, h⟩⟩
  exact Option.isNone_iff_eq_none.2 (Option.not_isSome_iff_eq_none.1 (hroots u hu h))

theorem exists_answers (ht : t ∈ r.snapshot.types) (hn : t.nickname = some n) :
    ∃ u ∈ r.snapshot.types, r.snapshot.Answers n u ∧ r.carrier? n = some u.name := by
  rw [carrier?, Snapshot.typeNames, List.find?_append]
  cases hroot : (Kind.roots.map Prod.fst).find? fun name => decide (r.nickname? name = some n) with
  | some root =>
    have hfirst := (find?_eq_some_iff_firstWith fun _ => carriesNickname_iff).1 hroot
    obtain ⟨u, hu, rfl, _⟩ := hfirst.holds
    exact ⟨u, hu, .root hu hfirst, rfl⟩
  | none =>
    have hroots : ∀ u ∈ r.snapshot.types, u.nickname = some n → ¬ Kind.IsRoot u.name := by
      intro u hu hun hr
      exact List.find?_eq_none.1 hroot _ (Kind.isSome_ofRoot?_iff.1 hr) (carriesNickname_iff.2 ⟨u, hu, rfl, hun⟩)
    have hsome : (r.snapshot.types.find? fun u => u.nickname = some n).isSome = true :=
      List.find?_isSome.2 ⟨t, ht, decide_eq_true hn⟩
    obtain ⟨u, hu⟩ := Option.isSome_iff_exists.1 hsome
    have hfirst := (find?_eq_some_iff_firstWith fun _ => decide_eq_true_iff).1 hu
    exact ⟨u, hfirst.mem, .declared hroots hfirst, by rw [find?_declared hroots, hu]; rfl⟩

theorem operation_eq_abstract_iff :
    r.operation n = .error (.abstract n) ↔ (r.carrier? n).any r.isAbstract = true := by
  cases hany : (r.carrier? n).any r.isAbstract with
  | true => simp [operation, hany]
  | false =>
    cases ho : r.snapshot.operations.get? n with
    | none => simp [operation, hany, ho]
    | some o => simp [operation_eq_ok_iff.2 ⟨hany, o, ho, rfl⟩]

theorem exists_operation_iff (h : (r.carrier? n).any r.isAbstract = false) :
    (∃ op, r.operation n = .ok op) ↔ ∃ o, r.snapshot.operations.get? n = some o := by
  simp only [operation_eq_ok_iff, h, true_and]
  constructor
  · rintro ⟨_, o, ho, _⟩
    exact ⟨o, ho⟩
  · rintro ⟨o, ho⟩
    exact ⟨_, o, ho, rfl⟩

/-- An operation can be had as the type allows that answers to the nickname: it is abstract if the type is, and else
there if one of the merged documents records it. That type is the first that carries the nickname if no root does. So
the first decides exactly when it and the type that answers are both abstract or both concrete. -/
theorem operation_answered {ss : List Snapshot} (hr : r.snapshot = .mergeAll ss)
    (ht : FirstWith (fun u => u.nickname = some n) (ss.flatMap (·.types)) t) :
    ∃ u, r.snapshot.Answers n u ∧
      (r.operation n = .error (.abstract n) ↔ u.isAbstract = true) ∧
      (u.isAbstract = false → ((∃ op, r.operation n = .ok op) ↔ ∃ s ∈ ss, n ∈ s.operations.keys)) ∧
      ((∀ v ∈ ss.flatMap (·.types), v.nickname = some n → ¬ Kind.IsRoot v.name) → u = t) ∧
      ((r.operation n = .error (.abstract n) ↔ t.isAbstract = true) ∧
          (t.isAbstract = false → ((∃ op, r.operation n = .ok op) ↔ ∃ s ∈ ss, n ∈ s.operations.keys)) ↔
        u.isAbstract = t.isAbstract) := by
  have htypes : r.snapshot.types = ss.flatMap (·.types) := hr ▸ Snapshot.types_mergeAll ss
  rw [← htypes] at ht
  obtain ⟨u, hu, hanswers, hcarrier⟩ := exists_answers ht.mem ht.holds
  have hany : (r.carrier? n).any r.isAbstract = u.isAbstract := by
    rw [hcarrier, Option.any_some, isAbstract_of_mem hu]
  have habstract : r.operation n = .error (.abstract n) ↔ u.isAbstract = true := by
    rw [operation_eq_abstract_iff, hany]
  have hconcrete (h : u.isAbstract = false) :
      (∃ op, r.operation n = .ok op) ↔ ∃ s ∈ ss, n ∈ s.operations.keys := by
    rw [exists_operation_iff (hany.trans h), hr, Snapshot.exists_operation_mergeAll_iff]
  refine ⟨u, hanswers, habstract, hconcrete, ?first, ?decides⟩
  case first =>
    intro hroots
    rw [← htypes] at hroots
    cases hanswers with
    | root hu h =>
      obtain ⟨v, hv, hname, hvn⟩ := h.holds
      exact absurd (hname ▸ Kind.isSome_ofRoot?_iff.2 h.mem) (hroots v hv hvn)
    | declared _ h => exact h.unique ht
  case decides =>
    constructor
    · rintro ⟨hfirst, _⟩
      rw [Bool.eq_iff_iff, ← habstract, hfirst]
    · intro he
      rw [← he]
      exact ⟨habstract, hconcrete⟩

/-- A nickname of an abstract type, and of a root that is recorded after it. -/
def eclipsed : Registry where
  snapshot :=
    { types := [⟨"VipsShear", none, some "shear", true, false⟩, ⟨"GObject", none, some "shear", false, false⟩]
      operations := .ofList [("shear", ⟨"", false, []⟩)]
      enums := {}
      properties := []
      lazyTypes := [] }
  sound := by decide
  hidden := []

theorem operation_eclipsed : ofDocuments [eclipsed.snapshot] = .ok eclipsed ∧
    FirstWith (fun u => u.nickname = some "shear") eclipsed.snapshot.types
      ⟨"VipsShear", none, some "shear", true, false⟩ ∧
    ∃ op, eclipsed.operation "shear" = .ok op := by
  refine ⟨ofSnapshot_eq_ok_iff.2 ⟨(Snapshot.empty_merge _).symm, rfl⟩, ⟨[], _, rfl, rfl, ?_⟩, _, rfl⟩
  exact fun _ h => absurd h List.not_mem_nil

/-- A document with a type, and one with an abstract type that comes later and the operation. -/
def scattered : List Snapshot :=
  [{ Snapshot.empty with types := [⟨"VipsShear", none, some "shear", false, false⟩] },
    { Snapshot.empty with
      types := [⟨"VipsSkew", none, some "shear", true, false⟩]
      operations := .ofList [("shear", ⟨"", false, []⟩)] }]

theorem operation_answered_scattered : ∃ r, ofDocuments scattered = .ok r ∧ r.snapshot = .mergeAll scattered ∧
    FirstWith (fun u => u.nickname = some "shear") (scattered.flatMap (·.types))
      ⟨"VipsShear", none, some "shear", false, false⟩ ∧
    r.operation "shear" ≠ .error (.abstract "shear") ∧ ∃ op, r.operation "shear" = .ok op := by
  have hfirst : FirstWith (fun u => u.nickname = some "shear") (scattered.flatMap (·.types))
      ⟨"VipsShear", none, some "shear", false, false⟩ := ⟨[], _, rfl, rfl, fun _ h => absurd h List.not_mem_nil⟩
  have hplain : ∀ v ∈ scattered.flatMap (·.types), v.nickname = some "shear" → ¬ Kind.IsRoot v.name := by
    have hnone : ∀ v ∈ scattered.flatMap (·.types), Kind.ofRoot? v.name = none := by decide
    exact fun v hv _ => Option.not_isSome_iff_eq_none.2 (hnone v hv)
  let r : Registry := ⟨.mergeAll scattered, by decide, []⟩
  obtain ⟨u, _, habstract, hconcrete, hsame, _⟩ := operation_answered (r := r) rfl hfirst
  obtain rfl := hsame hplain
  refine ⟨r, ofSnapshot_eq_ok_iff.2 ⟨rfl, rfl⟩, rfl, hfirst, fun h => ?_, (hconcrete rfl).2 ?_⟩
  · cases habstract.1 h
  · exact ⟨_, List.mem_cons_of_mem _ List.mem_cons_self, by decide⟩

end Registry

end Autodoc
