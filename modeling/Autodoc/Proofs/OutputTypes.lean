import Autodoc.Proofs.Requirements

namespace Autodoc

def Kind.isArray : Kind → Bool
  | arrayInt | arrayDouble | arrayImage => true
  | _ => false

theorem TypeUse.defaults_argument_eq_iff {k : Kind} :
    TypeUse.defaults .argument k = TypeUse.defaults .result k ↔ k.isArray = false := by
  cases k <;> decide

theorem TypeUse.defaults_of_isArray {k : Kind} (h : k.isArray = true) (u : TypeUse) :
    ∃ host, u.defaults k = some host ∧ (host = "array" ↔ u = .result) := by
  cases k with
  | arrayInt => exact ⟨_, rfl, by cases u <;> decide⟩
  | arrayDouble => exact ⟨_, rfl, by cases u <;> decide⟩
  | arrayImage => exact ⟨_, rfl, by cases u <;> decide⟩
  | _ => cases h

namespace Config

variable {c : Config} {u : TypeUse} {d : TypeDescriptor} {host : String}

def LacksOverride (c : Config) (d : TypeDescriptor) : Prop := ∀ u, d.name.bind (c.hostTable u).byName.get? = none

theorem lookup_of_lacksOverride (h : c.LacksOverride d) (u : TypeUse) :
    (c.hostTable u).lookup d = u.defaults d.kind := by
  rw [HostTable.lookup, h u, byKind_hostTable]

theorem hostType_eq_ok_iff : (c.hostType d u).outcome = .ok host ↔ c.HasHost u d ∧ host = c.shownHost u d := by
  rw [hostType, HasHost, shownHost]
  cases (c.hostTable u).lookup d with
  | some entry => simp [eq_comm]
  | none =>
    cases c.unknownTypes with
    | sentinel =>
      constructor
      · intro h
        cases h
        exact ⟨.inl rfl, rfl⟩
      · rintro ⟨_, rfl⟩
        rfl
    | fail => simp

theorem hostType_argument_eq_iff (h : c.LacksOverride d) :
    (c.hostType d .argument).outcome = (c.hostType d .result).outcome ↔ d.kind.isArray = false := by
  rw [← TypeUse.defaults_argument_eq_iff, hostType, hostType, lookup_of_lacksOverride h, lookup_of_lacksOverride h]
  constructor
  · cases d.kind <;> simp [TypeUse.defaults]
  · intro hd
    rw [hd]

end Config

/-- The use that the outputs of an operation are typed for. -/
def Roles.outputUse (roles : Roles) : TypeUse := if roles.outputs.length = 1 then .result else .argument

theorem Roles.Complete.outputs {c : Config} {roles : Roles} (h : roles.Complete c) :
    ∀ a ∈ roles.outputs, c.HasHost roles.outputUse a.type := by
  intro a ha
  rw [outputUse]
  split
  next hone =>
    obtain ⟨b, hb⟩ := List.length_eq_one_iff.1 hone
    obtain rfl : a = b := List.mem_singleton.1 (hb ▸ ha)
    exact h.returned a hb
  next hmany =>
    have hpos := List.length_pos_of_mem ha
    exact h.entries (by omega) a ha

namespace Signature

/-- The host types that are shown of the outputs: the one that is returned, or those of the entries. -/
def outputHosts (s : Signature) : List String :=
  match s.returns with
  | .single host => [host]
  | _ => s.outputs.map (·.host)

theorem outputHosts_shown (c : Config) (op : Operation) : (shown c op).outputHosts =
    (Roles.ofArguments op.arguments).outputs.map fun a =>
      c.shownHost (Roles.ofArguments op.arguments).outputUse a.type := by
  rw [outputHosts, shown, Roles.returnShape, Roles.outputUse]
  rcases (Roles.ofArguments op.arguments).outputs with _ | ⟨a, _ | ⟨b, os⟩⟩
  · rfl
  · rfl
  · simp [shownReturn, shownOutput]

end Signature

namespace Registry

variable {r : Registry} {c : Config} {nickname : String} {o : OperationRecord} {s : Signature}

/-- The only output is typed as a result and several are typed as arguments. All are typed as results exactly when
there are not several or the tables agree on each of them, which without overrides means that none is an array; and an
array that is not overridden is shown as a plain one exactly when it is the only output. -/
theorem outputs_typed (h : r.snapshot.operations.get? nickname = some o)
    (hs : (r.signature c nickname).outcome = .ok s) :
    List.Forall₂ (fun a host => (c.hostType a.type (r.rolesOf o).outputUse).outcome = .ok host)
      (r.rolesOf o).outputs s.outputHosts ∧
    (List.Forall₂ (fun a host => (c.hostType a.type .result).outcome = .ok host) (r.rolesOf o).outputs s.outputHosts ↔
      (2 ≤ (r.rolesOf o).outputs.length → ∀ a ∈ (r.rolesOf o).outputs,
        (c.hostType a.type .argument).outcome = (c.hostType a.type .result).outcome)) ∧
    (∀ d, c.LacksOverride d → ((c.hostType d .argument).outcome = (c.hostType d .result).outcome ↔
      d.kind.isArray = false)) ∧
    List.Forall₂ (fun a host => a.type.kind.isArray = true → c.LacksOverride a.type →
      (host = "array" ↔ (r.rolesOf o).outputs.length = 1)) (r.rolesOf o).outputs s.outputHosts := by
  obtain ⟨_, hcomplete, rfl⟩ := (signature_eq_ok_iff h).1 hs
  have hhosts : (Signature.shown c (r.recorded nickname o)).outputHosts =
      (r.rolesOf o).outputs.map fun a => c.shownHost (r.rolesOf o).outputUse a.type :=
    Signature.outputHosts_shown c _
  have htyped : ∀ a ∈ (r.rolesOf o).outputs, (c.hostType a.type (r.rolesOf o).outputUse).outcome =
      .ok (c.shownHost (r.rolesOf o).outputUse a.type) := fun a ha =>
    Config.hostType_eq_ok_iff.2 ⟨hcomplete.outputs a ha, rfl⟩
  rw [hhosts]
  simp only [List.forall₂_map_right_iff, List.forall₂_same]
  refine ⟨htyped, ⟨?agree, ?typed⟩, fun _ => Config.hostType_argument_eq_iff, ?arrays⟩
  case agree =>
    intro hresult hmany a ha
    have huse : (r.rolesOf o).outputUse = .argument := if_neg (by omega)
    rw [hresult a ha, ← htyped a ha, huse]
  case typed =>
    intro hagree a ha
    rw [← htyped a ha, Roles.outputUse]
    split
    next => rfl
    next hmany =>
      have hpos := List.length_pos_of_mem ha
      exact (hagree (by omega) a ha).symm
  case arrays =>
    intro a _ harray hlacks
    obtain ⟨host, hhost, hiff⟩ := TypeUse.defaults_of_isArray harray (r.rolesOf o).outputUse
    rw [Config.shownHost, Config.lookup_of_lacksOverride hlacks, hhost, Option.getD_some, hiff, Roles.outputUse]
    split <;> simp [*]

/-- An operation that measures an image: the values that are found, and how many. -/
def measureRecord : OperationRecord :=
  ⟨"measure an image", false,
    [⟨"in", 19, "VipsImage", ""⟩, ⟨"out", 35, "VipsArrayDouble", ""⟩, ⟨"count", 35, "gint", ""⟩]⟩

def measuring : Registry where
  snapshot :=
    { types :=
        [⟨"VipsOperation", some "GObject", none, true, false⟩,
          ⟨"VipsMeasure", some "VipsOperation", some "measure", false, false⟩]
      operations := .ofList [("measure", measureRecord)]
      enums := {}
      properties := []
      lazyTypes := [] }
  sound := by decide
  hidden := []

theorem get?_measuring : measuring.snapshot.operations.get? "measure" = some measureRecord := by decide

theorem outputs_measuring : (measuring.rolesOf measureRecord).outputs =
    [⟨"out", .ofBits 35, ⟨.arrayDouble, some "VipsArrayDouble"⟩, ""⟩,
      ⟨"count", .ofBits 35, ⟨.int, some "gint"⟩, ""⟩] := by
  decide

theorem signature_measuring : (measuring.signature .bare "measure").outcome =
    .ok (.shown .bare (measuring.recorded "measure" measureRecord)) := by
  have hcomplete : (measuring.rolesOf measureRecord).Complete .bare :=
    ⟨fun _ _ => .inl rfl, fun _ _ => .inl rfl, fun _ _ _ => .inl rfl, by decide⟩
  exact (signature_eq_ok_iff get?_measuring).2 ⟨⟨_, rfl⟩, hcomplete, rfl⟩

theorem several_outputs_measuring : measuring.snapshot.operations.get? "measure" = some measureRecord ∧
    ∃ s, (measuring.signature .bare "measure").outcome = .ok s ∧ s.outputHosts = ["float[]|float", "integer"] ∧
      (Config.bare.hostType ⟨.arrayDouble, some "VipsArrayDouble"⟩ .result).outcome = .ok "array" ∧
      ¬ List.Forall₂ (fun a host => (Config.bare.hostType a.type .result).outcome = .ok host)
        (measuring.rolesOf measureRecord).outputs s.outputHosts := by
  have hhosts : (Signature.shown .bare (measuring.recorded "measure" measureRecord)).outputHosts =
      ["float[]|float", "integer"] := by
    rw [Signature.outputHosts_shown]
    decide
  refine ⟨get?_measuring, _, signature_measuring, hhosts, rfl, ?_⟩
  rw [outputs_measuring, hhosts]
  rintro (_ | ⟨hout, _⟩)
  exact absurd (Except.ok.inj hout) (by decide)

theorem outputs_typed_measuring : measuring.snapshot.operations.get? "measure" = some measureRecord ∧
    ∃ s, (measuring.signature .bare "measure").outcome = .ok s ∧
      List.Forall₂ (fun a host => (Config.bare.hostType a.type .argument).outcome = .ok host)
        (measuring.rolesOf measureRecord).outputs s.outputHosts ∧
      ¬ ∀ a ∈ (measuring.rolesOf measureRecord).outputs,
        (Config.bare.hostType a.type .argument).outcome = (Config.bare.hostType a.type .result).outcome := by
  obtain ⟨htyped, _, hagree, _⟩ := outputs_typed get?_measuring signature_measuring
  refine ⟨get?_measuring, _, signature_measuring, htyped, fun hall => ?_⟩
  have hlacks : Config.bare.LacksOverride ⟨.arrayDouble, some "VipsArrayDouble"⟩ := by
    intro u
    cases u <;> rfl
  have hout := (hagree _ hlacks).1 (hall ⟨"out", .ofBits 35, ⟨.arrayDouble, some "VipsArrayDouble"⟩, ""⟩ (by decide))
  cases hout

end Registry

end Autodoc
