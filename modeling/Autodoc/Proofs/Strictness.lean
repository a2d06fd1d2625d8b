import Autodoc.Proofs.Causes
import Autodoc.Proofs.Checking
import Autodoc.Proofs.Failure
import Autodoc.Proofs.Placement

namespace Autodoc

namespace Config

def strict (c : Config) : Config := { c with unknownTypes := .fail }

def lenient (c : Config) : Config := { c with unknownTypes := .sentinel }

theorem hostTable_strict (c : Config) (u : TypeUse) : c.strict.hostTable u = c.hostTable u := by
  cases u <;> rfl

theorem hostTable_lenient (c : Config) (u : TypeUse) : c.lenient.hostTable u = c.hostTable u := by
  cases u <;> rfl

theorem unmapped_strict {c : Config} {u : TypeUse} {d : TypeDescriptor} :
    c.strict.Unmapped u d ↔ c.Unmapped u d := by
  rw [Unmapped, Unmapped, hostTable_strict]

end Config

/-- The first computation ends as the second one does, or it stops at a type that no table maps. -/
def Tightens (x y : Except GenerateError α) : Prop :=
  x = y ∨ ∃ context field type, x = .error (.unmappedType context field type)

namespace Tightens

theorem refl (x : Except GenerateError α) : Tightens x x := .inl rfl

theorem bind {x y : Except GenerateError α} {f g : α → Except GenerateError β} (h : Tightens x y)
    (hf : ∀ a, Tightens (f a) (g a)) : Tightens (x.bind f) (y.bind g) := by
  rcases h with rfl | ⟨context, field, type, rfl⟩
  · cases x with
    | error e => exact refl _
    | ok a => exact hf a
  · exact .inr ⟨context, field, type, rfl⟩

theorem each {f g : α → Logged GenerateError β} (h : ∀ a, Tightens (f a).outcome (g a).outcome) (as : List α) :
    Tightens (Logged.each f as).outcome (Logged.each g as).outcome := by
  induction as with
  | nil => exact refl _
  | cons a as ih =>
    rw [Logged.outcome_each_cons, Logged.outcome_each_cons]
    exact (h a).bind fun b => ih.bind fun bs => refl _

variable {c : Config}

theorem hostTypeIn (context field : String) (d : TypeDescriptor) (u : TypeUse) :
    Tightens (c.strict.hostTypeIn context field d u).outcome (c.lenient.hostTypeIn context field d u).outcome := by
  rw [Config.hostTypeIn, Config.hostTypeIn, Config.hostType, Config.hostType, c.hostTable_strict,
    c.hostTable_lenient]
  cases (c.hostTable u).lookup d with
  | some host => exact refl _
  | none => exact .inr ⟨_, _, _, rfl⟩

theorem ofOperation (op : Operation) :
    Tightens (Signature.ofOperation c.strict op).outcome (Signature.ofOperation c.lenient op).outcome := by
  simp only [Signature.ofOperation, Logged.outcome_bind]
  refine bind ?_ fun returns => bind (each (fun a => ?_) _) fun params => bind (each (fun a => ?_) _) fun refs => ?_
  · cases (Roles.ofArguments op.arguments).returnShape with
    | void => exact refl _
    | aggregate => exact refl _
    | single a =>
      simp only [Signature.returnType, Logged.outcome_bind]
      exact (hostTypeIn _ _ _ _).bind fun _ => refl _
  · simp only [Signature.param, Logged.outcome_bind]
    exact (hostTypeIn _ _ _ _).bind fun _ => refl _
  · exact refl _
  · split
    next =>
      simp only [Logged.outcome_bind]
      refine bind (each (fun a => ?_) _) fun _ => refl _
      simp only [Signature.outputDoc, Logged.outcome_bind]
      exact (hostTypeIn _ _ _ _).bind fun _ => refl _
    next => exact refl _

theorem propertyDoc (p : Property) :
    Tightens (Registry.propertyDoc c.strict p).outcome (Registry.propertyDoc c.lenient p).outcome := by
  simp only [Registry.propertyDoc, Logged.outcome_bind]
  exact (hostTypeIn _ _ _ _).bind fun _ => refl _

theorem autodoc (r : Registry) : Tightens (r.autodoc c.strict).outcome (r.autodoc c.lenient).outcome := by
  simp only [Registry.autodoc, Logged.outcome_bind]
  refine bind (refl _) fun names => bind (each (fun n => ?_) _) fun methods => bind ?_ fun properties => refl _
  · simp only [Registry.documented, Registry.methodDoc, Registry.signature, Logged.outcome_bind]
    refine bind (refl _) fun _ => bind (bind (refl _) ofOperation) fun _ => refl _
  · simp only [Registry.propertyDocs, Logged.outcome_bind]
    exact bind (refl _) fun properties => each propertyDoc properties

end Tightens

namespace Placement

variable {args : List Argument}

def useOf (p : Placement args) (i : Fin args.length) : TypeUse := if p.outputs = [i] then .result else .argument

/-- A required argument that is not deprecated and not the receiver. -/
def IsSigned (p : Placement args) (i : Fin args.length) : Prop :=
  (args.get i).flags.required = true ∧ (args.get i).flags.deprecated = false ∧ p.receiver ≠ some i

theorem isSigned_of_mem {p : Placement args} (h : p.FollowsFlags) {i : Fin args.length}
    (hi : i ∈ p.inputs ∨ i ∈ p.outputs) : p.IsSigned i := by
  refine ⟨h.required_of_mem (.inr hi), ?_⟩
  rcases hi with hi | hi
  · obtain ⟨hlive, hreceiver, _⟩ := (h.inputs i).1 hi
    exact ⟨hlive, hreceiver⟩
  · obtain ⟨hlive, hreceiver, _⟩ := (h.outputs i).1 hi
    exact ⟨hlive, hreceiver⟩

/-- What a signature shows stands at a position that it signs, and is looked up in the table for that position. -/
theorem exists_of_shows {a : Argument} {u : TypeUse} (h : (Roles.ofArguments args).Shows a u) :
    ∃ i, args.get i = a ∧ (ofArguments args).IsSigned i ∧ (ofArguments args).useOf i = u := by
  have hflags := followsFlags_ofArguments args
  rw [← roles_ofArguments] at h
  cases h with
  | returned h =>
    obtain ⟨i, hi, ha⟩ := List.map_eq_singleton_iff.1 h
    exact ⟨i, ha, isSigned_of_mem hflags (.inr (by simp [hi])), if_pos hi⟩
  | input h =>
    obtain ⟨i, hi, ha⟩ := List.mem_map.1 h
    refine ⟨i, ha, isSigned_of_mem hflags (.inl hi), if_neg fun ho => ?_⟩
    exact hflags.separates.inputs_outputs i hi (by simp [ho])
  | entry h hs =>
    obtain ⟨i, hi, ha⟩ := List.mem_map.1 h
    refine ⟨i, ha, isSigned_of_mem hflags (.inr hi), if_neg fun ho => hs ?_⟩
    simp [roles, ho]

end Placement

namespace Registry

variable {r : Registry} {c : Config}

/-- A field that no table maps: a required argument of an operation or a property of images. -/
inductive LacksHost (r : Registry) (c : Config) : String → String → String → Prop
  | argument {op : Operation} {i : Fin op.arguments.length} (h : r.operation op.nickname = .ok op)
      (hi : (Placement.ofArguments op.arguments).IsSigned i)
      (hu : c.Unmapped ((Placement.ofArguments op.arguments).useOf i) (op.arguments.get i).type) :
      LacksHost r c op.nickname (op.arguments.get i).name (op.arguments.get i).type.shown
  | property {p : PropertyRecord} (h : p ∈ r.snapshot.properties)
      (hu : c.Unmapped .argument (r.describe p.type)) :
      LacksHost r c "image property" p.name (r.describe p.type).shown

theorem lacksHost_of_blames {context field type : String}
    (h : r.Blames c.strict (.unmappedType context field type)) : r.LacksHost c context field type := by
  cases h with
  | argument h hs _ hu =>
    obtain ⟨i, rfl, hi, rfl⟩ := Placement.exists_of_shows hs
    exact .argument h hi (Config.unmapped_strict.1 hu)
  | property h _ hu => exact .property h (Config.unmapped_strict.1 hu)

theorem enumFile_strict (r : Registry) (c : Config) : r.enumFile c.strict = r.enumFile c.lenient := by
  funext type
  have hdoc : r.enumDoc c.strict type = r.enumDoc c.lenient type := rfl
  have hrender (d : EnumDoc) : d.render c.strict = d.render c.lenient := rfl
  rw [enumFile, enumFile, hdoc]
  simp only [hrender]

theorem tail_script_strict (r : Registry) (c : Config) :
    (r.script c.strict).tail = (r.script c.lenient).tail := by
  have hnames : enumNames c.strict r = enumNames c.lenient r := rfl
  rw [script, script, List.tail_cons, List.tail_cons, hnames]
  simp only [enumFile_strict]

theorem script_strict (h : ∀ context field type,
    (r.autodoc c.strict).outcome ≠ .error (.unmappedType context field type)) :
    r.script c.strict = r.script c.lenient := by
  rcases Tightens.autodoc (c := c) r with he | ⟨context, field, type, he⟩
  · exact congrArg₂ List.cons he (tail_script_strict r c)
  · exact absurd he (h context field type)

end Registry

namespace Emission

variable {c : Config} {sink : Sink σ} {s : Emission σ}

theorem emitAll_of_autodoc_error {e : GenerateError} (h : (s.registry.autodoc c).outcome = .error e) :
    (emitAll c sink s).outcome = .error e ∧ handed c sink s = [] := by
  obtain ⟨_, hend⟩ := emitAll_feeds c sink s
  rw [hend, handed_eq, Registry.script, h]
  exact ⟨rfl, rfl⟩

/-- A strict run that does not stop at a type that no table maps hands over what the lenient one does and ends as
it does. One that stops there has handed over nothing, and says what lacks a host type. -/
theorem emitAll_strict (c : Config) (sink : Sink σ) (s : Emission σ) :
    (∀ n, (emitAll c.strict sink s).outcome = .ok n →
      (emitAll c.lenient sink s).outcome = .ok n ∧ handed c.lenient sink s = handed c.strict sink s ∧
        (emitAll c.lenient sink s).state.kept = (emitAll c.strict sink s).state.kept) ∧
    (∀ e, (emitAll c.strict sink s).outcome = .error e →
      (∀ context field type, e ≠ .unmappedType context field type) →
      (emitAll c.lenient sink s).outcome = .error e ∧ handed c.lenient sink s = handed c.strict sink s ∧
        (emitAll c.lenient sink s).state.kept = (emitAll c.strict sink s).state.kept) ∧
    ((∀ file k, (sink file k).outcome = .ok ()) → ∀ context field type,
      (emitAll c.strict sink s).outcome = .error (.unmappedType context field type) →
      handed c.strict sink s = [] ∧ s.registry.LacksHost c context field type) := by
  -- both runs follow one script, unless the strict one stops in the autodoc file
  have hagree (h : ∀ context field type,
      (s.registry.autodoc c.strict).outcome ≠ .error (.unmappedType context field type)) :
      (emitAll c.lenient sink s).outcome = (emitAll c.strict sink s).outcome ∧
        handed c.lenient sink s = handed c.strict sink s ∧
        (emitAll c.lenient sink s).state.kept = (emitAll c.strict sink s).state.kept := by
    obtain ⟨hkept, hend⟩ := emitAll_feeds c.strict sink s
    obtain ⟨hkept', hend'⟩ := emitAll_feeds c.lenient sink s
    rw [hkept, hend, hkept', hend', handed_eq, handed_eq, Registry.script_strict h]
    exact ⟨rfl, rfl, rfl⟩
  refine ⟨?_, ?_, ?_⟩
  · intro n hn
    obtain ⟨hend, hrest⟩ := hagree fun _ _ _ h => by
      cases hn.symm.trans (emitAll_of_autodoc_error h).1
    exact ⟨hend.trans hn, hrest⟩
  · intro e he hne
    obtain ⟨hend, hrest⟩ := hagree fun context field type h => by
      cases he.symm.trans (emitAll_of_autodoc_error h).1
      exact hne context field type rfl
    exact ⟨hend.trans he, hrest⟩
  · intro hsink context field type he
    rcases List.mem_cons.1 (Sink.mem_of_feed_error hsink (feed_eq_error he)) with h | h
    · refine ⟨(emitAll_of_autodoc_error h.symm).2, ?_⟩
      exact Registry.lacksHost_of_blames (Registry.autodoc_failsOnly _ h.symm)
    · rcases Registry.error_of_mem_tail h with h | ⟨_, _, _, h⟩ <;> cases h

end Emission

/-- An operation that takes a function, which has no kind. -/
def Registry.hooked : Registry where
  snapshot :=
    { types :=
        [⟨"VipsOperation", some "GObject", none, true, false⟩,
          ⟨"VipsEvalHook", some "VipsOperation", some "eval_hook", false, false⟩,
          ⟨"VipsHookFn", none, none, false, false⟩]
      operations :=
        .ofList [("eval_hook", ⟨"call a function", false,
          [⟨"in", 19, "VipsImage", ""⟩, ⟨"hook", 19, "VipsHookFn", ""⟩]⟩)]
      enums := {}
      properties := []
      lazyTypes := [] }
  sound := by decide
  hidden := []

theorem Registry.autodoc_hooked : (Registry.hooked.autodoc Config.bare.strict).outcome =
    .error (.unmappedType "eval_hook" "hook" "VipsHookFn") := by
  have hlisted : ["VipsEvalHook"].filterMap Registry.hooked.liveNickname? = ["eval_hook"] := by decide
  have hnames : (Registry.hooked.nicknames Config.bare.strict).outcome = .ok ⟨#["eval_hook"]⟩ := by
    exact outcome_nicknames_of_leaves (by decide) (by decide) (by decide) (by decide) hlisted
  have hdocumented : (Registry.hooked.documented Config.bare.strict "eval_hook").outcome =
      .error (.unmappedType "eval_hook" "hook" "VipsHookFn") := rfl
  simp only [autodoc, Logged.outcome_bind, hnames, NicknameSet.toList, Logged.outcome_each_cons, hdocumented,
    Except.bind]

theorem outcome_emitAll_strict_twins :
    (Emission.emitAll Config.bare.strict .accepting ⟨.twins, ()⟩).outcome = .ok 3 := by
  obtain ⟨f, hf⟩ := Registry.autodoc_of_childless (r := .twins) (c := Config.bare.strict) (by decide) (by decide)
    rfl rfl
  obtain ⟨g, h, hscript, _⟩ := Registry.script_twins
  have hstrict : Registry.twins.script Config.bare.strict = Registry.twins.script .bare :=
    Registry.script_strict fun _ _ _ he => by cases hf.symm.trans he
  rw [(Emission.emitAll_feeds _ _ _).2, hstrict, hscript]
  rfl

/-- The enums are looked for where there is nothing. -/
def Config.rootless : Config := { Config.bare with enumRoot := "VipsNothing" }

theorem outcome_emitAll_strict_rootless :
    (Emission.emitAll Config.rootless.strict .accepting ⟨.twins, ()⟩).outcome =
      .error (.missingRoot "VipsNothing") := by
  obtain ⟨f, hf⟩ := Registry.autodoc_of_childless (r := .twins) (c := Config.rootless.strict) (by decide)
    (by decide) rfl rfl
  have hnames : (enumNames Config.rootless.strict .twins).outcome = .error (.missingRoot "VipsNothing") := by
    rw [Registry.outcome_enumNames, Registry.outcome_enumTypeNames, if_neg (by decide)]
    rfl
  rw [(Emission.emitAll_feeds _ _ _).2, Registry.script, hf, hnames]
  rfl

theorem emitAll_strict_hooked :
    (Emission.emitAll Config.bare.strict .accepting ⟨.twins, ()⟩).outcome = .ok 3 ∧
    (Emission.emitAll Config.bare.lenient .accepting ⟨.twins, ()⟩).outcome = .ok 3 ∧
    (Emission.emitAll Config.rootless.strict .accepting ⟨.twins, ()⟩).outcome =
      .error (.missingRoot "VipsNothing") ∧
    (Emission.emitAll Config.rootless.lenient .accepting ⟨.twins, ()⟩).outcome =
      .error (.missingRoot "VipsNothing") ∧
    (∀ file k, (Sink.accepting file k).outcome = .ok ()) ∧
    (Emission.emitAll Config.bare.strict .accepting ⟨.hooked, ()⟩).outcome =
      .error (.unmappedType "eval_hook" "hook" "VipsHookFn") ∧
    Registry.hooked.LacksHost .bare "eval_hook" "hook" "VipsHookFn" := by
  have haccepts : ∀ file k, (Sink.accepting file k).outcome = .ok () := fun _ _ => rfl
  have hfails : (Emission.emitAll Config.bare.strict .accepting ⟨.hooked, ()⟩).outcome =
      .error (.unmappedType "eval_hook" "hook" "VipsHookFn") :=
    (Emission.emitAll_of_autodoc_error Registry.autodoc_hooked).1
  have hagrees := (Emission.emitAll_strict .bare .accepting ⟨.twins, ()⟩).1 3 outcome_emitAll_strict_twins
  have hstops := (Emission.emitAll_strict .rootless .accepting ⟨.twins, ()⟩).2.1 _ outcome_emitAll_strict_rootless
    fun _ _ _ h => by cases h
  have hblames := (Emission.emitAll_strict .bare .accepting ⟨.hooked, ()⟩).2.2 haccepts _ _ _ hfails
  exact ⟨outcome_emitAll_strict_twins, hagrees.1, outcome_emitAll_strict_rootless, hstops.1, haccepts, hfails,
    hblames.2⟩

end Autodoc
