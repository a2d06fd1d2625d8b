import Autodoc.Proofs.EnumVisibility
import Autodoc.Proofs.FileNames

namespace Autodoc

/-- A computation fails with nothing but the errors that are allowed. -/
def FailsOnly (allowed : ε → Prop) (x : Except ε α) : Prop := ∀ e, x = .error e → allowed e

namespace FailsOnly

variable {allowed : ε → Prop}

theorem ok (a : α) : FailsOnly allowed (.ok a) := by
  intro e h
  cases h

theorem error {e : ε} (h : allowed e) : FailsOnly allowed (.error e : Except ε α) := by
  rintro _ ⟨rfl⟩
  exact h

theorem bind {x : Except ε α} {f : α → Except ε β} (hx : FailsOnly allowed x)
    (hf : ∀ a, x = .ok a → FailsOnly allowed (f a)) : FailsOnly allowed (x.bind f) := by
  cases x with
  | error e => exact error (hx e rfl)
  | ok a => exact hf a rfl

theorem each {f : α → Logged ε β} {as : List α} (h : ∀ a ∈ as, FailsOnly allowed (f a).outcome) :
    FailsOnly allowed (Logged.each f as).outcome := by
  induction as with
  | nil => exact ok []
  | cons a as ih =>
    rw [Logged.outcome_each_cons]
    refine bind (h a List.mem_cons_self) fun b _ => ?_
    exact bind (ih fun a' ha' => h a' (List.mem_cons_of_mem _ ha')) fun bs _ => ok _

end FailsOnly

namespace Config

variable {c : Config}

def Unmapped (c : Config) (u : TypeUse) (d : TypeDescriptor) : Prop :=
  d.kind = .unknown ∧ ∀ name, d.name = some name → (c.hostTable u).byName.get? name = none

theorem byKind_hostTable (c : Config) (u : TypeUse) : (c.hostTable u).byKind = u.defaults := by
  cases u <;> rfl

theorem defaults_eq_none_iff {u : TypeUse} {k : Kind} : u.defaults k = none ↔ k = .unknown := by
  cases k <;> simp [TypeUse.defaults]

theorem lookup_eq_none_iff {u : TypeUse} {d : TypeDescriptor} :
    (c.hostTable u).lookup d = none ↔ c.Unmapped u d := by
  unfold HostTable.lookup
  split
  next host h =>
    obtain ⟨name, hn, hget⟩ := Option.bind_eq_some_iff.1 h
    refine ⟨fun h => absurd h (by simp), fun hu => ?_⟩
    cases (hu.2 name hn).symm.trans hget
  next h =>
    rw [byKind_hostTable, defaults_eq_none_iff]
    exact ⟨fun hk => ⟨hk, fun name hn => Option.bind_eq_none_iff.1 h name hn⟩, And.left⟩

theorem hostTypeIn_failsOnly {allowed : GenerateError → Prop} {context field : String} {d : TypeDescriptor}
    {u : TypeUse} (h : c.unknownTypes = .fail → c.Unmapped u d → allowed (.unmappedType context field d.shown)) :
    FailsOnly allowed (c.hostTypeIn context field d u).outcome := by
  rw [hostTypeIn, Logged.outcome_mapError, hostType]
  split
  next host hl => exact .ok _
  next hl =>
    split
    next hp => exact .ok _
    next hp => exact .error (h hp (lookup_eq_none_iff.1 hl))

theorem enumRefName_failsOnly {allowed : GenerateError → Prop} {context field : String} {d : TypeDescriptor}
    (h : d.name = none → allowed (.anonymousEnum context field)) :
    FailsOnly allowed (c.enumRefName context field d) := by
  unfold enumRefName
  split
  next hn => exact .error (h hn)
  next => exact .ok _

end Config

/-- The host type of an argument is shown, as looked up for a use: that of the only output as a result, those of
inputs and of several outputs as arguments. -/
inductive Roles.Shows (roles : Roles) : Argument → TypeUse → Prop
  | returned {a : Argument} (h : roles.outputs = [a]) : Shows roles a .result
  | input {a : Argument} (h : a ∈ roles.inputs) : Shows roles a .argument
  | entry {a : Argument} (h : a ∈ roles.outputs) (hs : roles.outputs.length ≠ 1) : Shows roles a .argument

theorem Roles.returnShape_eq_single {roles : Roles} {a : Argument} (h : roles.returnShape = .single a) :
    roles.outputs = [a] := by
  unfold returnShape at h
  split at h
  · cases h
  next b hb =>
    cases h
    exact hb
  · cases h

theorem Roles.returnShape_eq_aggregate {roles : Roles} (h : roles.returnShape = .aggregate) :
    roles.outputs.length ≠ 1 := by
  intro hlength
  obtain ⟨a, ha⟩ := List.length_eq_one_iff.1 hlength
  simp [returnShape, ha] at h

namespace Signature

variable {c : Config} {op : Operation} {allowed : GenerateError → Prop}

theorem ofOperation_failsOnly
    (hhost : ∀ a u, (Roles.ofArguments op.arguments).Shows a u → c.unknownTypes = .fail → c.Unmapped u a.type →
      allowed (.unmappedType op.nickname a.name a.type.shown))
    (henum : ∀ a ∈ (Roles.ofArguments op.arguments).enumArguments, a.type.name = none →
      allowed (.anonymousEnum op.nickname a.name)) :
    FailsOnly allowed (ofOperation c op).outcome := by
  simp only [ofOperation, Logged.outcome_bind]
  refine .bind ?_ fun returns _ => .bind (.each fun a ha => ?_) fun params _ =>
    .bind (.each fun a ha => ?_) fun enumRefs _ => ?_
  · cases hs : (Roles.ofArguments op.arguments).returnShape with
    | void => exact .ok _
    | aggregate => exact .ok _
    | single a =>
      simp only [returnType, Logged.outcome_bind]
      have hshows := Roles.Shows.returned (Roles.returnShape_eq_single hs)
      exact .bind (Config.hostTypeIn_failsOnly (hhost a _ hshows)) fun _ _ => .ok _
  · simp only [param, Logged.outcome_bind]
    exact .bind (Config.hostTypeIn_failsOnly (hhost a _ (.input ha))) fun _ _ => .ok _
  · simp only [enumRef, Logged.outcome_bind]
    exact .bind (Config.enumRefName_failsOnly (henum a ha)) fun _ _ => .ok _
  · split
    next hs =>
      simp only [Logged.outcome_bind]
      refine .bind (.each fun a ha => ?_) fun _ _ => .ok _
      simp only [outputDoc, Logged.outcome_bind]
      have hshows := Roles.Shows.entry ha (Roles.returnShape_eq_aggregate hs)
      exact .bind (Config.hostTypeIn_failsOnly (hhost a _ hshows)) fun _ _ => .ok _
    next =>
      simp only [Logged.outcome_bind]
      exact .bind (.ok []) fun _ _ => .ok _

end Signature

namespace Registry

variable {r : Registry} {c : Config}

/-- Why the autodoc file fails to render. -/
inductive Blames (r : Registry) (c : Config) : GenerateError → Prop
  | root (h : r.sees c.operationRoot = false) : Blames r c (.missingRoot c.operationRoot)
  | synonym {nickname : String} {source : RegistryError} (hs : nickname ∈ c.synonyms)
      (hd : nickname ∉ c.denyList) (h : r.operation nickname = .error source) :
      Blames r c (.operation nickname source)
  | argument {op : Operation} {a : Argument} {u : TypeUse} (h : r.operation op.nickname = .ok op)
      (hs : (Roles.ofArguments op.arguments).Shows a u) (hp : c.unknownTypes = .fail)
      (hu : c.Unmapped u a.type) : Blames r c (.unmappedType op.nickname a.name a.type.shown)
  | enumArgument {op : Operation} {a : Argument} (h : r.operation op.nickname = .ok op)
      (ha : a ∈ (Roles.ofArguments op.arguments).enumArguments) (hn : a.type.name = none) :
      Blames r c (.anonymousEnum op.nickname a.name)
  | property {p : PropertyRecord} (h : p ∈ r.snapshot.properties) (hp : c.unknownTypes = .fail)
      (hu : c.Unmapped .argument (r.describe p.type)) :
      Blames r c (.unmappedType "image property" p.name (r.describe p.type).shown)
  | enumProperty {p : PropertyRecord} (h : p ∈ r.snapshot.properties) (hn : (r.describe p.type).name = none) :
      Blames r c (.anonymousEnum "image property" p.name)

theorem nickname_of_operation {nickname : String} {op : Operation} (h : r.operation nickname = .ok op) :
    op.nickname = nickname := by
  obtain ⟨_, _, _, rfl⟩ := operation_eq_ok_iff.1 h
  rfl

theorem nicknames_failsOnly : FailsOnly (r.Blames c) (r.nicknames c).outcome := by
  cases hs : r.sees c.operationRoot with
  | true =>
    rw [outcome_nicknames hs]
    exact .ok _
  | false =>
    have hroot : r.root c.operationRoot = .error (.missingRoot c.operationRoot) := by simp [Registry.root, hs]
    rw [nicknames, Logged.outcome_bind, Logged.outcome_ofExcept, hroot]
    exact .error (.root hs)

/-- What is documented can be had, unless it is there as a synonym only. -/
theorem live_or_synonym {names : NicknameSet} {n : String} (h : (r.nicknames c).outcome = .ok names)
    (hn : n ∈ names.toList) : n ∉ c.denyList ∧ (r.isLive n = true ∨ n ∈ c.synonyms) := by
  obtain ⟨hfound, hallowed⟩ := (mem_of_outcome_nicknames h).1 hn
  exact ⟨hallowed, hfound.imp_left fun hf => hf.1⟩

theorem documented_failsOnly {n : String} (h : n ∉ c.denyList ∧ (r.isLive n = true ∨ n ∈ c.synonyms)) :
    FailsOnly (r.Blames c) (r.documented c n).outcome := by
  simp only [documented, methodDoc, signature, operationOf, Logged.outcome_bind, Logged.outcome_note,
    Logged.outcome_ofExcept]
  refine .bind (.ok ()) fun _ _ => .bind ?_ fun _ _ => .ok _
  cases ho : r.operation n with
  | error source =>
    -- the walk has found only what can be had, so it is a synonym that is missing
    have hlive : r.isLive n = false := by simp [isLive, ho]
    have hsynonym := h.2.resolve_left (by rw [hlive]; exact Bool.false_ne_true)
    exact .error (.synonym hsynonym h.1 ho)
  | ok op =>
    refine .bind (.ok op) fun op' h' => ?_
    cases h'
    obtain rfl := nickname_of_operation ho
    exact Signature.ofOperation_failsOnly (fun a u hs hp hu => .argument ho hs hp hu)
      fun a ha hn => .enumArgument ho ha hn

theorem propertyDocs_failsOnly : FailsOnly (r.Blames c) (r.propertyDocs c).outcome := by
  rw [propertyDocs, Logged.outcome_bind, Logged.outcome_ofExcept, properties_eq_ok]
  refine .each fun p hp => ?_
  obtain ⟨q, hq, rfl⟩ := List.mem_map.1 hp
  simp only [propertyDoc, Logged.outcome_bind]
  refine .bind (Config.hostTypeIn_failsOnly fun hp hu => .property hq hp hu) fun _ _ => ?_
  split
  · simp only [Logged.outcome_bind]
    refine .bind (Config.enumRefName_failsOnly fun hn => .enumProperty hq hn) fun _ _ => ?_
    exact .bind (.ok _) fun _ _ => .ok _
  · simp only [Logged.outcome_bind]
    exact .bind (.ok _) fun _ _ => .ok _

theorem autodoc_failsOnly : FailsOnly (r.Blames c) (r.autodoc c).outcome := by
  simp only [autodoc, Logged.outcome_bind]
  refine .bind nicknames_failsOnly fun names hnames => ?_
  refine .bind (.each fun n hn => documented_failsOnly (live_or_synonym hnames hn)) fun _ _ => ?_
  exact .bind propertyDocs_failsOnly fun _ _ => .ok _

theorem enumNames_failsOnly :
    FailsOnly (fun e => e = .missingRoot c.enumRoot) (enumNames c r).outcome := by
  rw [outcome_enumNames, outcome_enumTypeNames]
  split
  · exact .ok _
  · exact .error rfl

theorem sees_of_enumNames {names : List String} (h : (enumNames c r).outcome = .ok names) {type : String}
    (ht : type ∈ names) : (enumNames c r).state.sees type = true ∧
      (enumNames c r).state.snapshot.kindOf type = .enum := by
  rw [outcome_enumNames, outcome_enumTypeNames] at h
  split at h
  · cases h
    rw [state_enumNames]
    obtain ⟨below, hbelow, hlisted⟩ := List.mem_filterMap.1 (mem_sortedNames.1 ht)
    obtain ⟨rfl, _, _, hkind⟩ := listedEnum?_eq_some_iff.1 hlisted
    have hdescends := mem_below.1 hbelow
    obtain ⟨_, _, hparent, hvisible⟩ := Relation.TransGen.tail'_iff.1 hdescends
    obtain ⟨t, htypes, hname, _⟩ := hparent
    have hrecorded := Snapshot.isSome_record?_iff.2 ⟨t, htypes, hname⟩
    refine ⟨?_, hkind⟩
    rw [sees, Snapshot.isKnown, hrecorded, Bool.or_true, Bool.true_and, Bool.not_eq_true', ← Bool.not_eq_true,
      isHidden_iff]
    exact hvisible
  · cases h

theorem constantsFrom_failsOnly {enum : String} {reserved : Table String} {seen values : List String} :
    FailsOnly (fun e => ∃ value constant, e = .invalidConstant enum value constant)
      (EnumDoc.constantsFrom enum reserved seen values) := by
  induction values generalizing seen with
  | nil => exact .ok _
  | cons value values ih =>
    simp only [EnumDoc.constantsFrom]
    split
    · exact .error ⟨_, _, rfl⟩
    · split
      next e he => exact .error (ih e he)
      next => exact .ok _

theorem enumFile_failsOnly {type : String} (hs : r.sees type = true) (hk : r.snapshot.kindOf type = .enum) :
    FailsOnly (fun e => ∃ value constant, e = .invalidConstant type value constant) (r.enumFile c type) := by
  simp only [enumFile, enumDoc, hs, if_true, enumValues, hk]
  split
  next e he =>
    split at he
    next e' he' =>
      cases he
      exact .error (constantsFrom_failsOnly _ he')
    next => cases he
  next => exact .ok _

theorem error_of_mem_tail {e : GenerateError} (h : .error e ∈ (r.script c).tail) :
    e = .missingRoot c.enumRoot ∨ ∃ enum value constant, e = .invalidConstant enum value constant := by
  rw [script, List.tail_cons] at h
  cases hn : (enumNames c r).outcome with
  | error e' =>
    simp only [hn, List.mem_singleton, Except.error.injEq] at h
    exact .inl (h ▸ enumNames_failsOnly e' hn)
  | ok names =>
    simp only [hn, List.mem_map] at h
    obtain ⟨type, ht, hfile⟩ := h
    obtain ⟨hs, hk⟩ := sees_of_enumNames hn ht
    exact .inr ⟨type, enumFile_failsOnly hs hk e hfile⟩

end Registry

theorem Sink.mem_of_feed_error {sink : Sink σ} (hsink : ∀ file k, (sink file k).outcome = .ok ())
    {files : List (Except GenerateError EmittedFile)} {k : σ} {e : GenerateError}
    (h : (sink.feed files k).2 = .error e) : .error e ∈ files := by
  induction files generalizing k with
  | nil => cases h
  | cons x files ih =>
    cases x with
    | error e' =>
      cases h
      exact List.mem_cons_self
    | ok file =>
      simp only [feed, hsink] at h
      exact List.mem_cons_of_mem _ (ih h)

namespace Emission

variable {c : Config} {sink : Sink σ} {s : Emission σ}

theorem feed_eq_error {e : GenerateError} (h : (emitAll c sink s).outcome = .error e) :
    (sink.feed (s.registry.script c) s.kept).2 = .error e := by
  rw [(emitAll_feeds c sink s).2] at h
  cases hf : (sink.feed (s.registry.script c) s.kept).2 with
  | error e' =>
    rw [hf] at h
    cases h
    rfl
  | ok u =>
    rw [hf] at h
    cases h

/-- What a run may fail with when no file is refused. -/
inductive Foreseen (c : Config) : GenerateError → Prop
  | missingRoot {root : String} (h : root = c.operationRoot ∨ root = c.enumRoot) : Foreseen c (.missingRoot root)
  | operation {nickname : String} {source : RegistryError} (hs : nickname ∈ c.synonyms)
      (hd : nickname ∉ c.denyList) : Foreseen c (.operation nickname source)
  | unmappedType {context field type : String} (h : c.unknownTypes = .fail) :
      Foreseen c (.unmappedType context field type)
  | anonymousEnum {context field : String} : Foreseen c (.anonymousEnum context field)
  | invalidConstant {enum value constant : String} : Foreseen c (.invalidConstant enum value constant)

theorem foreseen_of_blames {r : Registry} {e : GenerateError} (h : r.Blames c e) : Foreseen c e := by
  cases h with
  | root => exact .missingRoot (.inl rfl)
  | synonym hs hd _ => exact .operation hs hd
  | argument _ _ hp _ => exact .unmappedType hp
  | enumArgument => exact .anonymousEnum
  | property _ hp _ => exact .unmappedType hp
  | enumProperty => exact .anonymousEnum

theorem foreseen_of_script {r : Registry} {e : GenerateError} (h : .error e ∈ r.script c) : Foreseen c e := by
  rcases List.mem_cons.1 h with h | h
  · exact foreseen_of_blames (Registry.autodoc_failsOnly e h.symm)
  · rcases Registry.error_of_mem_tail h with rfl | ⟨_, _, _, rfl⟩
    · exact .missingRoot (.inr rfl)
    · exact .invalidConstant

/-- A run whose files are all taken fails with what is foreseen and never with an error of the registry's own, and
each enum that it lists renders unless one of its values makes no constant. -/
theorem emitAll_failsOnly_foreseen (hsink : ∀ file k, (sink file k).outcome = .ok ()) (s : Emission σ) :
    (∀ e, (emitAll c sink s).outcome = .error e → Foreseen c e ∧ ∀ source, e ≠ .registry source) ∧
      ∀ names, (enumNames c s.registry).outcome = .ok names → ∀ type ∈ names,
        (∃ file, (enumNames c s.registry).state.enumFile c type = .ok file) ∨ ∃ value constant,
          (enumNames c s.registry).state.enumFile c type = .error (.invalidConstant type value constant) := by
  constructor
  · intro e he
    have hforeseen : Foreseen c e := foreseen_of_script (Sink.mem_of_feed_error hsink (feed_eq_error he))
    refine ⟨hforeseen, ?_⟩
    rintro source rfl
    cases hforeseen
  · intro names hnames type ht
    obtain ⟨hs, hk⟩ := Registry.sees_of_enumNames hnames ht
    cases hfile : (enumNames c s.registry).state.enumFile c type with
    | ok file => exact .inl ⟨file, rfl⟩
    | error e =>
      obtain ⟨value, constant, rfl⟩ := Registry.enumFile_failsOnly hs hk e hfile
      exact .inr ⟨value, constant, rfl⟩

end Emission

theorem Registry.autodoc_twins_default : (Registry.twins.autodoc .default).outcome =
    .error (.operation "crop" (.unknownOperation "crop")) := by
  have hnone : [].filterMap Registry.twins.liveNickname? = [] := rfl
  have hnames : (Registry.twins.nicknames .default).outcome = .ok ⟨#["crop"]⟩ := by
    exact outcome_nicknames_of_leaves (by decide) (by decide) (by decide) (by decide) hnone
  have hcrop : Registry.twins.operationOf "crop" = .error (.operation "crop" (.unknownOperation "crop")) := rfl
  have hdocumented : (Registry.twins.documented .default "crop").outcome =
      .error (.operation "crop" (.unknownOperation "crop")) := by
    simp only [documented, methodDoc, signature, hcrop, Logged.outcome_bind, Logged.outcome_note,
      Logged.outcome_ofExcept, Except.bind]
  simp only [autodoc, Logged.outcome_bind, hnames, NicknameSet.toList, Logged.outcome_each_cons, hdocumented,
    Except.bind]

theorem emitAll_failsOnly_foreseen_twins :
    (∀ file k, (Sink.accepting file k).outcome = .ok ()) ∧
    (Emission.emitAll .default .accepting ⟨.twins, ()⟩).outcome =
      .error (.operation "crop" (.unknownOperation "crop")) ∧
    Emission.Foreseen .default (.operation "crop" (.unknownOperation "crop")) ∧
    (enumNames .bare .twins).outcome = .ok ["Direction", "VipsDirection"] ∧
    ((∃ file, (enumNames .bare .twins).state.enumFile .bare "VipsDirection" = .ok file) ∨
      ∃ value constant, (enumNames .bare .twins).state.enumFile .bare "VipsDirection" =
        .error (.invalidConstant "VipsDirection" value constant)) := by
  have haccepts : ∀ file k, (Sink.accepting file k).outcome = .ok () := fun _ _ => rfl
  have hfails : (Emission.emitAll .default .accepting ⟨.twins, ()⟩).outcome =
      .error (.operation "crop" (.unknownOperation "crop")) := by
    rw [(Emission.emitAll_feeds _ _ _).2, Registry.script, Registry.autodoc_twins_default]
    rfl
  obtain ⟨_, hnames⟩ := Registry.enumNames_twins
  refine ⟨haccepts, hfails, ?_, hnames, ?_⟩
  · exact ((Emission.emitAll_failsOnly_foreseen haccepts ⟨.twins, ()⟩).1 _ hfails).1
  · exact (Emission.emitAll_failsOnly_foreseen haccepts ⟨.twins, ()⟩).2 _ hnames _ (by decide)

end Autodoc
