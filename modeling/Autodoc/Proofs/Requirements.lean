import Autodoc.Proofs.Placement
import Autodoc.Proofs.Strictness
import Autodoc.Proofs.Validation

namespace Autodoc

/-- A computation fails with a fault if there is one, and has its result otherwise. -/
structure Logged.Yields (x : Logged ε α) (fault? : Option ε) (a : α) : Prop where
  error : ∀ e, fault? = some e → x.outcome = .error e
  ok : fault? = none → x.outcome = .ok a

namespace Logged.Yields

variable {x : Logged ε α} {first? second? : Option ε} {a : α} {b : β}

theorem of_ok (h : x.outcome = .ok a) : x.Yields none a := ⟨nofun, fun _ => h⟩

theorem of_error {e : ε} (h : x.outcome = .error e) : x.Yields (some e) a := by
  refine ⟨?_, nofun⟩
  rintro _ ⟨rfl⟩
  exact h

theorem done : Yields (Pure.pure a : Logged ε α) none a := of_ok rfl

theorem eq_ok_iff (h : x.Yields first? a) {b : α} : x.outcome = .ok b ↔ first? = none ∧ b = a := by
  cases first? with
  | none => rw [h.ok rfl, Except.ok.injEq, eq_self, true_and, eq_comm]
  | some fault => simp [h.error fault rfl]

theorem eq_error_iff (h : x.Yields first? a) {e : ε} : x.outcome = .error e ↔ first? = some e := by
  cases first? with
  | none => simp [h.ok rfl]
  | some fault => rw [h.error fault rfl, Except.error.injEq, Option.some.injEq]

/-- Of two computations in a row the first fault counts. -/
theorem bind {f : α → Logged ε β} (hx : x.Yields first? a) (hf : (f a).Yields second? b) :
    (x >>= f).Yields (first?.or second?) b := by
  cases first? with
  | none =>
    have hok := hx.ok rfl
    constructor
    · intro e he
      rw [outcome_bind, hok]
      exact hf.error e he
    · intro h
      rw [outcome_bind, hok]
      exact hf.ok h
  | some fault =>
    apply of_error
    rw [outcome_bind, hx.error fault rfl]
    rfl

theorem map {f : α → β} (hx : x.Yields first? a) : (x >>= fun a => Pure.pure (f a)).Yields first? (f a) := by
  have hdone : (Pure.pure (f a) : Logged ε β).Yields none (f a) := done
  have hboth : (x >>= fun a => Pure.pure (f a)).Yields (first?.or none) (f a) := hx.bind hdone
  rwa [Option.or_none] at hboth

theorem each {f : α → Logged ε β} {fault? : α → Option ε} {g : α → β} (h : ∀ a, (f a).Yields (fault? a) (g a))
    (as : List α) : (Logged.each f as).Yields (as.findSome? fault?) (as.map g) := by
  induction as with
  | nil => exact done
  | cons a as ih =>
    have hcons : (Logged.each f (a :: as)).Yields ((fault? a).or (as.findSome? fault?)) (g a :: as.map g) :=
      (h a).bind ih.map
    rw [List.findSome?_cons]
    cases hf : fault? a with
    | none => rwa [hf] at hcons
    | some e => rwa [hf] at hcons

end Logged.Yields

namespace Config

def HasHost (c : Config) (u : TypeUse) (d : TypeDescriptor) : Prop :=
  c.unknownTypes = .sentinel ∨ ∃ host, (c.hostTable u).lookup d = some host

def shownHost (c : Config) (u : TypeUse) (d : TypeDescriptor) : String :=
  ((c.hostTable u).lookup d).getD unknownHostType

end Config

/-- Something that a signature asks of an argument. -/
inductive Requirement where
  | host (a : Argument) (u : TypeUse)
  | enumName (a : Argument)

namespace Requirement

def Met (c : Config) : Requirement → Prop
  | host a u => c.HasHost u a.type
  | enumName a => a.type.name ≠ none

def isMet (c : Config) : Requirement → Bool
  | host a u => c.unknownTypes = .sentinel || ((c.hostTable u).lookup a.type).isSome
  | enumName a => a.type.name.isSome

def error (nickname : String) : Requirement → GenerateError
  | host a _ => .unmappedType nickname a.name a.type.shown
  | enumName a => .anonymousEnum nickname a.name

def fault? (c : Config) (nickname : String) (q : Requirement) : Option GenerateError :=
  if q.isMet c then none else some (q.error nickname)

variable {c : Config} {nickname : String} {a : Argument} {u : TypeUse}

theorem isMet_iff {q : Requirement} : q.isMet c = true ↔ q.Met c := by
  cases q with
  | host a u => rw [isMet, Bool.or_eq_true, decide_eq_true_iff, Option.isSome_iff_exists, Met, Config.HasHost]
  | enumName a => rw [isMet, Option.isSome_iff_ne_none, Met]

theorem hostTypeIn_yields : (c.hostTypeIn nickname a.name a.type u).Yields ((host a u).fault? c nickname)
    (c.shownHost u a.type) := by
  rw [fault?, isMet, Config.shownHost, Config.hostTypeIn, Config.hostType]
  cases (c.hostTable u).lookup a.type with
  | some host =>
    rw [Option.isSome_some, Bool.or_true, if_pos rfl]
    exact .done
  | none =>
    cases c.unknownTypes with
    | sentinel => exact .of_ok rfl
    | fail => exact .of_error rfl

theorem enumRefName_yields : (Logged.ofExcept (c.enumRefName nickname a.name a.type)).Yields
    ((enumName a).fault? c nickname) (c.stripPrefix (a.type.name.getD "")) := by
  rw [fault?, isMet, Config.enumRefName]
  cases a.type.name with
  | some name => exact .done
  | none => exact .of_error rfl

end Requirement

def ReturnShape.requirements : ReturnShape → List Requirement
  | .single a => [.host a .result]
  | _ => []

namespace Roles

/-- What a signature asks of the arguments, in the order in which it is looked at. -/
def requirements (roles : Roles) : List Requirement :=
  roles.returnShape.requirements ++ (roles.inputs.map (.host · .argument) ++
    (roles.enumArguments.map .enumName ++
      if roles.returnShape = .aggregate then roles.outputs.map (.host · .argument) else []))

/-- All that a signature looks up is there. -/
structure Complete (c : Config) (roles : Roles) : Prop where
  returned : ∀ a, roles.outputs = [a] → c.HasHost .result a.type
  inputs : ∀ a ∈ roles.inputs, c.HasHost .argument a.type
  entries : 2 ≤ roles.outputs.length → ∀ a ∈ roles.outputs, c.HasHost .argument a.type
  enums : ∀ a ∈ roles.outputs ++ roles.inputs, a.type.isEnum = true → a.type.name ≠ none

variable {roles : Roles}

theorem returnShape_eq_single_iff {a : Argument} : roles.returnShape = .single a ↔ roles.outputs = [a] := by
  refine ⟨returnShape_eq_single, fun h => ?_⟩
  rw [returnShape, h]

theorem returnShape_eq_aggregate_iff : roles.returnShape = .aggregate ↔ 2 ≤ roles.outputs.length := by
  rw [returnShape]
  rcases roles.outputs with _ | ⟨a, _ | ⟨b, os⟩⟩
  · simp
  · simp
  · simp

theorem met_returnShape_iff {c : Config} : (∀ q ∈ roles.returnShape.requirements, q.Met c) ↔
    ∀ a, roles.outputs = [a] → c.HasHost .result a.type := by
  simp only [← returnShape_eq_single_iff]
  cases roles.returnShape with
  | void => simp [ReturnShape.requirements]
  | aggregate => simp [ReturnShape.requirements]
  | single a => simp [ReturnShape.requirements, Requirement.Met]

theorem met_requirements_iff {c : Config} : (∀ q ∈ roles.requirements, q.Met c) ↔ roles.Complete c := by
  have hinputs : (∀ q ∈ roles.inputs.map (Requirement.host · .argument), q.Met c) ↔
      ∀ a ∈ roles.inputs, c.HasHost .argument a.type := List.forall_mem_map
  have henums : (∀ q ∈ roles.enumArguments.map Requirement.enumName, q.Met c) ↔
      ∀ a ∈ roles.outputs ++ roles.inputs, a.type.isEnum = true → a.type.name ≠ none := by
    rw [List.forall_mem_map, enumArguments, List.forall_mem_filter]
    rfl
  have hentries : (∀ q ∈ if roles.returnShape = .aggregate then roles.outputs.map (Requirement.host · .argument)
      else [], q.Met c) ↔ (2 ≤ roles.outputs.length → ∀ a ∈ roles.outputs, c.HasHost .argument a.type) := by
    simp only [← returnShape_eq_aggregate_iff]
    split
    next hs => exact List.forall_mem_map.trans ⟨fun h _ => h, fun h => h hs⟩
    next hs => exact iff_of_true (List.forall_mem_nil _) fun h => absurd h hs
  rw [requirements, List.forall_mem_append, List.forall_mem_append, List.forall_mem_append, met_returnShape_iff,
    hinputs, henums, hentries]
  exact ⟨fun ⟨h₁, h₂, h₃, h₄⟩ => ⟨h₁, h₂, h₄, h₃⟩, fun h => ⟨h.returned, h.inputs, h.enums, h.entries⟩⟩

/-- No requirement has a fault exactly when all that is looked up is there. -/
theorem findSome?_fault?_eq_none_iff {c : Config} (nickname : String) :
    roles.requirements.findSome? (·.fault? c nickname) = none ↔ roles.Complete c := by
  rw [List.findSome?_eq_none_iff, ← met_requirements_iff]
  refine forall₂_congr fun q _ => ?_
  rw [← Requirement.isMet_iff, Requirement.fault?]
  cases q.isMet c <;> simp

theorem findSome?_fault?_eq_some_iff {c : Config} {nickname : String} {e : GenerateError} :
    roles.requirements.findSome? (·.fault? c nickname) = some e ↔
      ∃ q, FirstWith (fun q => ¬ q.Met c) roles.requirements q ∧ e = q.error nickname :=
  findSome?_check_iff fun _ => Requirement.isMet_iff

end Roles

namespace Signature

variable {c : Config} {nickname : String}

def shownReturn (c : Config) : ReturnShape → ReturnType
  | .void => .void
  | .single a => .single (c.shownHost .result a.type)
  | .aggregate => .aggregate

def shownParam (c : Config) (a : Argument) : Param := ⟨variableName a.name, c.shownHost .argument a.type⟩

def shownEnumRef (c : Config) (a : Argument) : EnumRef :=
  ⟨c.stripPrefix (a.type.name.getD ""), variableName a.name⟩

def shownOutput (c : Config) (a : Argument) : OutputDoc :=
  ⟨variableName a.name, c.shownHost .argument a.type, Text.capitalize a.blurb⟩

def shown (c : Config) (op : Operation) : Signature :=
  let roles := Roles.ofArguments op.arguments
  { isStatic := roles.isStatic
    returns := shownReturn c roles.returnShape
    name := op.nickname
    params := roles.inputs.map (shownParam c)
    summary := Text.capitalize op.description
    enumRefs := roles.enumArguments.map (shownEnumRef c)
    outputs := if roles.returnShape = .aggregate then roles.outputs.map (shownOutput c) else [] }

theorem returnType_yields (shape : ReturnShape) : (returnType c nickname shape).Yields
    (shape.requirements.findSome? (·.fault? c nickname)) (shownReturn c shape) := by
  cases shape with
  | void => exact .done
  | aggregate => exact .done
  | single a =>
    rw [ReturnShape.requirements, List.findSome?_singleton]
    exact Requirement.hostTypeIn_yields.map

theorem each_yields {f : Argument → Logged GenerateError β} {g : Argument → β} {q : Argument → Requirement}
    (h : ∀ a, (f a).Yields ((q a).fault? c nickname) (g a)) (as : List Argument) :
    (Logged.each f as).Yields ((as.map q).findSome? (·.fault? c nickname)) (as.map g) := by
  rw [List.findSome?_map]
  exact .each h as

theorem param_yields (a : Argument) : (param c nickname a).Yields
    ((Requirement.host a .argument).fault? c nickname) (shownParam c a) :=
  Requirement.hostTypeIn_yields.map

theorem enumRef_yields (a : Argument) : (enumRef c nickname a).Yields
    ((Requirement.enumName a).fault? c nickname) (shownEnumRef c a) :=
  Requirement.enumRefName_yields.map

theorem outputDoc_yields (a : Argument) : (outputDoc c nickname a).Yields
    ((Requirement.host a .argument).fault? c nickname) (shownOutput c a) :=
  Requirement.hostTypeIn_yields.map

/-- A signature is made by four passes, of which the first fault counts. -/
theorem ofOperation_yields (op : Operation) : (ofOperation c op).Yields
    ((Roles.ofArguments op.arguments).requirements.findSome? (·.fault? c op.nickname)) (shown c op) := by
  rw [Roles.requirements, List.findSome?_append, List.findSome?_append, List.findSome?_append]
  apply (returnType_yields _).bind
  apply (each_yields param_yields _).bind
  apply (each_yields enumRef_yields _).bind
  rw [shown]
  split
  · exact (each_yields outputDoc_yields _).map
  · exact Logged.Yields.done.map

end Signature

namespace Registry

variable {r : Registry} {c : Config} {nickname : String} {o : OperationRecord}

def rolesOf (r : Registry) (o : OperationRecord) : Roles := .ofArguments (o.arguments.map r.described)

def recorded (r : Registry) (nickname : String) (o : OperationRecord) : Operation :=
  ⟨nickname, o.description, o.deprecated, o.arguments.map r.described⟩

theorem signature_of_error {source : RegistryError} (h : r.operation nickname = .error source) :
    (r.signature c nickname).outcome = .error (.operation nickname source) := by
  rw [signature, Logged.outcome_bind, Logged.outcome_ofExcept, operationOf, h]
  rfl

theorem signature_yields {op : Operation} (h : r.operation nickname = .ok op) : (r.signature c nickname).Yields
    ((Roles.ofArguments op.arguments).requirements.findSome? (·.fault? c nickname)) (Signature.shown c op) := by
  have hfound : (Logged.ofExcept (r.operationOf nickname)).Yields none op := by
    apply Logged.Yields.of_ok
    rw [Logged.outcome_ofExcept, operationOf, h]
    rfl
  have hmade : (r.signature c nickname).Yields
      (none.or ((Roles.ofArguments op.arguments).requirements.findSome? (·.fault? c op.nickname)))
      (Signature.shown c op) := hfound.bind (Signature.ofOperation_yields op)
  rwa [Option.none_or, nickname_of_operation h] at hmade

theorem eq_recorded {op : Operation} (h : r.snapshot.operations.get? nickname = some o)
    (hop : r.operation nickname = .ok op) : op = r.recorded nickname o := by
  obtain ⟨_, _, ho, hmade⟩ := operation_eq_ok_iff.1 hop
  cases h.symm.trans ho
  exact hmade

theorem signature_eq_ok_iff (h : r.snapshot.operations.get? nickname = some o) {s : Signature} :
    (r.signature c nickname).outcome = .ok s ↔
      (∃ op, r.operation nickname = .ok op) ∧ (r.rolesOf o).Complete c ∧
        s = .shown c (r.recorded nickname o) := by
  cases hop : r.operation nickname with
  | error source => simp [signature_of_error hop]
  | ok op =>
    have hmade := eq_recorded h hop
    subst hmade
    rw [(signature_yields hop).eq_ok_iff, Roles.findSome?_fault?_eq_none_iff]
    exact ⟨fun hs => ⟨⟨_, rfl⟩, hs⟩, fun hs => hs.2⟩

theorem signature_eq_error_iff (h : r.snapshot.operations.get? nickname = some o) {e : GenerateError} :
    (r.signature c nickname).outcome = .error e ↔
      (∃ source, r.operation nickname = .error source ∧ e = .operation nickname source) ∨
      (∃ op, r.operation nickname = .ok op) ∧
        ∃ q, FirstWith (fun q => ¬ q.Met c) (r.rolesOf o).requirements q ∧ e = q.error nickname := by
  cases hop : r.operation nickname with
  | error source => simp [signature_of_error hop, eq_comm]
  | ok op =>
    have hmade := eq_recorded h hop
    subst hmade
    rw [(signature_yields hop).eq_error_iff, Roles.findSome?_fault?_eq_some_iff]
    refine ⟨fun he => .inr ⟨⟨_, rfl⟩, he⟩, ?_⟩
    rintro (⟨_, hsource, _⟩ | ⟨_, he⟩)
    · cases hsource
    · exact he

def hookRecord : OperationRecord :=
  ⟨"call a function", false, [⟨"in", 19, "VipsImage", ""⟩, ⟨"hook", 19, "VipsHookFn", ""⟩]⟩

end Registry

end Autodoc
