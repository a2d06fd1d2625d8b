import Autodoc.Emission
import Autodoc.Proofs.Descent

namespace Autodoc.Registry

variable {r : Registry} {c : Config}

/-- The name of a type, where it is a concrete enum that has one. -/
def listedEnum? (r : Registry) (type : String) : Option String :=
  if r.isAbstract type || !(r.describe type).isEnum then none else (r.describe type).name

theorem outcome_acceptEnum (type : String) :
    (Walk.acceptEnum r type : Logged ε _).outcome = .ok (r.listedEnum? type) := by
  unfold Walk.acceptEnum listedEnum?
  by_cases h : (r.isAbstract type || !(r.describe type).isEnum) = true
  · simp only [h, if_true, Logged.outcome_pure]
  · cases hn : (r.describe type).name <;> simp [h, hn, Except.bind]

theorem outcome_enumTypeNames : (r.enumTypeNames c).outcome = if r.sees c.enumRoot then
    .ok (sortedNames ((r.below c.enumRoot).filterMap r.listedEnum?))
    else .error (.missingRoot c.enumRoot) := by
  have hcollect : (r.collect c.enumRoot (Walk.acceptEnum r) : Logged GenerateError _).outcome =
      .ok (sortedNames ((r.below c.enumRoot).filterMap r.listedEnum?)) :=
    outcome_collect fun type _ => outcome_acceptEnum type
  rw [enumTypeNames, Logged.outcome_bind, Logged.outcome_ofExcept, root]
  split
  · exact hcollect
  · rfl

theorem outcome_enumNames :
    (enumNames c r).outcome = ((r.forceAll c.lazyEnumTypes).2.enumTypeNames c).outcome := rfl

theorem state_enumNames : (enumNames c r).state = (r.forceAll c.lazyEnumTypes).2 := rfl

theorem outcome_enumNames_of_leaves {q : Registry} {types found : List String} (hq : (enumNames c r).state = q)
    (hr : q.sees c.enumRoot = true) (hc : q.children c.enumRoot = types) (hleaf : ∀ t ∈ types, q.children t = [])
    (hd : types.Nodup) (hf : types.filterMap q.listedEnum? = found) :
    (enumNames c r).outcome = .ok (sortedNames found) := by
  rw [outcome_enumNames, ← state_enumNames, hq, outcome_enumTypeNames, if_pos hr, below_of_leaves hc hleaf hd, hf]

theorem increasing_of_enumNames {names : List String} (h : (enumNames c r).outcome = .ok names) :
    Increasing names := by
  rw [outcome_enumNames, outcome_enumTypeNames] at h
  split at h
  · cases h
    exact sortedNames_increasing _
  · cases h

end Autodoc.Registry
