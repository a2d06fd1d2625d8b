import Autodoc.Proofs.WellFormed

namespace Autodoc

theorem mapM_eq_ok {f : α → Except ε β} {g : α → β} {as : List α} (h : ∀ a ∈ as, f a = .ok (g a)) :
    as.mapM f = .ok (as.map g) := by
  induction as with
  | nil => rfl
  | cons a as ih =>
    have hhead := h a List.mem_cons_self
    have htail := ih fun b hb => h b (List.mem_cons_of_mem _ hb)
    rw [List.mapM_cons, hhead, htail]
    rfl

namespace Registry

variable {r : Registry}

/-- An argument with what is known of its type. -/
def described (r : Registry) (a : ArgumentRecord) : Argument :=
  ⟨a.name, .ofBits a.flags, r.describe a.type, a.blurb⟩

def describedProperty (r : Registry) (p : PropertyRecord) : Property :=
  ⟨p.name, r.describe p.type, p.blurb⟩

theorem descriptor_of_isKnown {name : String} (h : r.snapshot.isKnown name = true) :
    r.descriptor name = .ok (r.describe name) :=
  if_pos h

theorem arguments_eq_ok {nickname : String} {o : OperationRecord}
    (h : r.snapshot.operations.get? nickname = some o) :
    o.arguments.mapM r.argument = .ok (o.arguments.map r.described) := by
  apply mapM_eq_ok
  intro a ha
  have hknown := r.wellFormed.arguments _ (Table.get?_eq_some_iff.1 h) a ha
  rw [argument, descriptor_of_isKnown hknown]
  rfl

theorem properties_eq_ok (r : Registry) :
    r.properties = .ok (r.snapshot.properties.map r.describedProperty) := by
  apply mapM_eq_ok
  intro p hp
  rw [property, descriptor_of_isKnown (r.wellFormed.properties p hp)]
  rfl

end Registry

end Autodoc
