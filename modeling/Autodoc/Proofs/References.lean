import Autodoc.Proofs.AutodocParts
import Autodoc.Proofs.ClassNames

namespace Autodoc

namespace Config

variable {c : Config}

theorem stripPrefix_of_enumRefName {context field name : String} {d : TypeDescriptor}
    (h : c.enumRefName context field d = .ok name) : ∃ type, d.name = some type ∧ name = c.stripPrefix type := by
  unfold enumRefName at h
  split at h
  · cases h
  next type htype =>
    cases h
    exact ⟨type, htype, rfl⟩

end Config

theorem Signature.type_of_enumRef {c : Config} {nickname : String} {a : Argument} {e : EnumRef}
    (h : (enumRef c nickname a).outcome = .ok e) :
    ∃ type, a.type.name = some type ∧ e.enum = c.stripPrefix type := by
  obtain ⟨enum, henum, hpure⟩ := Logged.outcome_bind_eq_ok_iff.1 h
  cases hpure
  exact Config.stripPrefix_of_enumRefName henum

namespace Registry

variable {r : Registry} {c : Config} {f : EmittedFile}

theorem enum_of_propertyDoc {p : Property} {d : PropertyDoc} (h : (propertyDoc c p).outcome = .ok d) :
    if p.type.isEnum then ∃ type, p.type.name = some type ∧ d.enum = some (c.stripPrefix type)
    else d.enum = none := by
  obtain ⟨host, _, h⟩ := Logged.outcome_bind_eq_ok_iff.1 h
  split at h
  next he =>
    obtain ⟨enum, henum, hpure⟩ := Logged.outcome_bind_eq_ok_iff.1 h
    cases hpure
    obtain ⟨type, htype, rfl⟩ := Config.stripPrefix_of_enumRefName henum
    rw [if_pos he]
    exact ⟨type, htype, rfl⟩
  next he =>
    cases h
    rw [if_neg he]

/-- A documented operation takes or returns an enum of the type, or an image property is of the type. -/
inductive RefersTo (r : Registry) (c : Config) : String → Prop
  | argument {names : NicknameSet} {n type : String} {op : Operation} {a : Argument}
      (hlisted : (r.nicknames c).outcome = .ok names) (hn : n ∈ names.toList) (hop : r.operation n = .ok op)
      (ha : a ∈ (Roles.ofArguments op.arguments).enumArguments) (hname : a.type.name = some type) :
      RefersTo r c type
  | property {p : PropertyRecord} {type : String} (hp : p ∈ r.snapshot.properties)
      (hkind : (r.describe p.type).isEnum) (hname : (r.describe p.type).name = some type) : RefersTo r c type

theorem eq_of_describe {type name : String} (h : (r.describe type).name = some name) :
    name = type ∧ r.isAnonymous type = false := by
  rw [describe] at h
  split at h
  · cases h
  next ha =>
    cases h
    exact ⟨rfl, Bool.not_eq_true _ ▸ ha⟩

theorem RefersTo.kind {type : String} (h : r.RefersTo c type) :
    (r.describe type).kind = .enum ∧ r.isAnonymous type = false := by
  cases h with
  | argument _ _ hop ha hname =>
    obtain ⟨_, o, _, rfl⟩ := operation_eq_ok_iff.1 hop
    obtain ⟨b, _, rfl⟩ := List.mem_map.1 (Roles.mem_enumArguments ha)
    obtain ⟨rfl, hnamed⟩ := eq_of_describe hname
    have hkind := List.of_mem_filter ha
    exact ⟨of_decide_eq_true hkind, hnamed⟩
  | property _ hkind hname =>
    obtain ⟨rfl, hnamed⟩ := eq_of_describe hname
    exact ⟨of_decide_eq_true hkind, hnamed⟩

namespace Parts

def references (parts : r.Parts c f) : List String :=
  parts.signatures.flatMap (fun s => s.enumRefs.map (·.enum)) ++ parts.docs.filterMap (·.enum)

theorem mem_references_of_signature (parts : r.Parts c f) {enum : String} :
    (∃ s ∈ parts.signatures, ∃ e ∈ s.enumRefs, e.enum = enum) ↔
      ∃ n ∈ parts.names.toList, ∃ op, r.operation n = .ok op ∧
        ∃ a ∈ (Roles.ofArguments op.arguments).enumArguments, ∃ type, a.type.name = some type ∧
          enum = c.stripPrefix type := by
  constructor
  · rintro ⟨s, hs, e, he, rfl⟩
    obtain ⟨n, hn, hsigned⟩ := exists_of_forall₂ parts.signed hs
    obtain ⟨op, hop, hsignature⟩ := exists_operation hsigned
    have hrefs := Logged.forall₂_of_each (Signature.of_operation hsignature).2.2
    obtain ⟨a, ha, href⟩ := exists_of_forall₂ hrefs he
    exact ⟨n, hn, op, hop, a, ha, Signature.type_of_enumRef href⟩
  · rintro ⟨n, hn, op, hop, a, ha, type, htype, rfl⟩
    obtain ⟨s, hs, hsigned⟩ := exists_of_forall₂ parts.signed.flip hn
    obtain ⟨op', hop', hsignature⟩ := exists_operation hsigned
    obtain rfl := Except.ok.inj (hop.symm.trans hop')
    have hrefs := Logged.forall₂_of_each (Signature.of_operation hsignature).2.2
    obtain ⟨e, he, href⟩ := exists_of_forall₂ hrefs.flip ha
    obtain ⟨type', htype', henum⟩ := Signature.type_of_enumRef href
    obtain rfl := Option.some.inj (htype.symm.trans htype')
    exact ⟨s, hs, e, he, henum⟩

theorem mem_references_of_doc (parts : r.Parts c f) {enum : String} :
    (∃ d ∈ parts.docs, d.enum = some enum) ↔
      ∃ p ∈ r.snapshot.properties, (r.describe p.type).isEnum ∧ ∃ type, (r.describe p.type).name = some type ∧
        enum = c.stripPrefix type := by
  constructor
  · rintro ⟨d, hd, henum⟩
    obtain ⟨_, hdescribed, hdoc⟩ := exists_of_forall₂ parts.shown hd
    obtain ⟨p, hp, rfl⟩ := List.mem_map.1 hdescribed
    have hreference := enum_of_propertyDoc hdoc
    split at hreference
    next hkind =>
      obtain ⟨type, htype, he⟩ := hreference
      exact ⟨p, hp, hkind, type, htype, Option.some.inj (henum.symm.trans he)⟩
    next =>
      rw [henum] at hreference
      cases hreference
  · rintro ⟨p, hp, hkind, type, htype, rfl⟩
    obtain ⟨d, hd, hdoc⟩ := exists_of_forall₂ parts.shown.flip (List.mem_map_of_mem hp)
    have hdescribed : (r.describedProperty p).type.isEnum := hkind
    have hreference := enum_of_propertyDoc hdoc
    rw [if_pos hdescribed] at hreference
    obtain ⟨type', htype', he⟩ := hreference
    obtain rfl := Option.some.inj (htype.symm.trans htype')
    exact ⟨d, hd, he⟩

/-- The file refers to the enums of the types that it has to do with, and to no other. -/
theorem mem_references_iff (parts : r.Parts c f) {enum : String} :
    enum ∈ parts.references ↔ ∃ type, r.RefersTo c type ∧ enum = c.stripPrefix type := by
  have hmem : enum ∈ parts.references ↔ (∃ s ∈ parts.signatures, ∃ e ∈ s.enumRefs, e.enum = enum) ∨
      ∃ d ∈ parts.docs, d.enum = some enum := by
    simp only [references, List.mem_append, List.mem_flatMap, List.mem_map, List.mem_filterMap]
  rw [hmem, parts.mem_references_of_signature, parts.mem_references_of_doc]
  constructor
  · rintro (⟨n, hn, op, hop, a, ha, type, htype, he⟩ | ⟨p, hp, hkind, type, htype, he⟩)
    · exact ⟨type, .argument parts.listed hn hop ha htype, he⟩
    · exact ⟨type, .property hp hkind htype, he⟩
  · rintro ⟨type, hrefers, he⟩
    cases hrefers with
    | @argument names n _ op a hlisted hn hop ha htype =>
      obtain rfl := Except.ok.inj (hlisted.symm.trans parts.listed)
      exact .inl ⟨n, hn, op, hop, a, ha, type, htype, he⟩
    | @property p _ hp hkind htype => exact .inr ⟨p, hp, hkind, type, htype, he⟩

end Parts

theorem mem_enumTypes_of_shown {names : List String} (hroot : c.enumRoot = "GEnum")
    (h : (enumNames c r).outcome = .ok names) {type : String} (hne : type ≠ "GEnum")
    (hkind : (r.describe type).kind = .enum) (hnamed : r.isAnonymous type = false)
    (habstract : r.isAbstract type = false) (hshown : (r.forceAll c.lazyEnumTypes).2.Shown "GEnum" type) :
    type ∈ names := by
  have hsnapshot : (r.forceAll c.lazyEnumTypes).2.snapshot = r.snapshot := snapshot_forceAll r _
  rw [outcome_enumNames, outcome_enumTypeNames, hroot] at h
  split at h
  · cases h
    rw [mem_sortedNames, List.mem_filterMap]
    have habove := above_of_kind_enum hkind hne
    refine ⟨type, mem_below.2 (hshown.descends (hsnapshot ▸ habove)), ?_⟩
    rw [listedEnum?_congr hsnapshot]
    exact listedEnum?_eq_some_iff.2 ⟨rfl, habstract, hnamed, hkind⟩
  · cases h

end Registry

namespace Emission

variable {c : Config} {sink : Sink σ} {s : Emission σ}

theorem outcome_enumNames_of_ok {n : Nat} (h : (emitAll c sink s).outcome = .ok n) :
    (enumNames c s.registry).outcome = .ok (handedTypes c sink s) := by
  rw [handedTypes_of_ok h, Registry.enumTypes]
  cases hn : (enumNames c s.registry).outcome with
  | ok names => rfl
  | error e =>
    have hscript := (handed_of_ok h).1
    rw [Registry.script, hn] at hscript
    have hmem : Except.error e ∈ (handed c sink s).map (.ok : _ → Except GenerateError EmittedFile) := by
      rw [hscript]
      exact List.mem_cons_of_mem _ List.mem_cons_self
    obtain ⟨_, _, he⟩ := List.mem_map.1 hmem
    cases he

/-- A run that ends well hands over an autodoc file, which refers to the enums of the types that it has to do with; and
where such a type is a concrete one below the root of enums that no type still hidden keeps the walk from, the run hands
over the file that declares the enum. -/
theorem references_resolve (hroot : c.enumRoot = "GEnum") {n : Nat} (h : (emitAll c sink s).outcome = .ok n) :
    ∃ f ∈ handed c sink s, f.fileName = c.autodocClass ++ ".php" ∧ ∃ parts : s.registry.Parts c f,
      (∀ enum, enum ∈ parts.references ↔ ∃ type, s.registry.RefersTo c type ∧ enum = c.stripPrefix type) ∧
      ∀ type, s.registry.RefersTo c type → type ≠ "GEnum" → s.registry.isAbstract type = false →
        (s.registry.forceAll c.lazyEnumTypes).2.Shown "GEnum" type →
        ∃ g ∈ handed c sink s, g.fileName = c.stripPrefix type ++ ".php" ∧ g.Declares c (c.stripPrefix type) := by
  obtain ⟨hscript, _⟩ := handed_of_ok h
  rcases handed_cases c sink s with hnil | ⟨f, files, hhanded, hf, _⟩
  · rw [hnil] at hscript
    cases hscript
  obtain ⟨parts⟩ := Registry.nonempty_parts hf
  have hmem : f ∈ handed c sink s := by
    rw [hhanded]
    exact List.mem_cons_self
  refine ⟨f, hmem, Registry.fileName_of_autodoc hf, parts, fun _ => parts.mem_references_iff, ?_⟩
  intro type hrefers hne habstract hshown
  obtain ⟨hkind, hnamed⟩ := hrefers.kind
  have htype := Registry.mem_enumTypes_of_shown hroot (outcome_enumNames_of_ok h) hne hkind hnamed habstract hshown
  exact exists_handed htype

end Emission

def Registry.flipArguments : List ArgumentRecord :=
  [⟨"direction", 19, "VipsDirection", ""⟩, ⟨"shape", 19, "VipsShape", ""⟩, ⟨"kind", 19, "GEnum", ""⟩,
    ⟨"angle", 19, "VipsAngle", ""⟩]

/-- An operation that takes an enum of each sort. -/
def Registry.flipping : Registry where
  snapshot :=
    { types :=
        [⟨"VipsOperation", some "GObject", none, true, false⟩,
          ⟨"VipsFlip", some "VipsOperation", some "flip", false, false⟩,
          ⟨"VipsDirection", some "GEnum", none, false, false⟩, ⟨"VipsShape", some "GEnum", none, true, false⟩,
          ⟨"VipsAngle", some "GEnum", none, false, false⟩]
      operations := .ofList [("flip", ⟨"flip an image", false, flipArguments⟩)]
      enums := {}
      properties := []
      lazyTypes := ["VipsDirection"] }
  sound := by decide
  hidden := ["VipsDirection"]

namespace Registry

theorem outcome_nicknames_flipping : (flipping.nicknames .bare).outcome = .ok ⟨#["flip"]⟩ := by
  have hlisted : ["VipsFlip"].filterMap flipping.liveNickname? = ["flip"] := by decide
  exact outcome_nicknames_of_leaves (by decide) (by decide) (by decide) (by decide) hlisted

theorem autodoc_flipping : ∃ f, (flipping.autodoc .bare).outcome = .ok f := by
  obtain ⟨doc, hdoc⟩ : ∃ doc, (flipping.documented .bare "flip").outcome = .ok doc := ⟨_, rfl⟩
  have hdocs : (flipping.propertyDocs .bare).outcome = .ok [] := rfl
  simp only [autodoc, Logged.outcome_bind, outcome_nicknames_flipping, NicknameSet.toList,
    Logged.outcome_each_cons, hdoc, hdocs, Except.bind]
  exact ⟨_, rfl⟩

theorem outcome_enumNames_flipping : (enumNames .bare flipping).outcome = .ok ["VipsAngle"] := by
  have hstate : (enumNames .bare flipping).state = flipping := rfl
  have hlisted : ["VipsShape", "VipsAngle"].filterMap flipping.listedEnum? = ["VipsAngle"] := by decide
  exact outcome_enumNames_of_leaves hstate (by decide) (by decide) (by decide) (by decide) hlisted

theorem script_flipping : ∃ f g, flipping.script .bare = [.ok f, .ok g] ∧
    f.fileName = "ImageAutodoc.php" ∧ g.fileName = "Angle.php" := by
  have hdoc : (enumNames .bare flipping).state.enumDoc .bare "VipsAngle" = .ok ⟨"Angle", []⟩ := rfl
  obtain ⟨f, g, hscript, hf, hg⟩ := exists_script_single autodoc_flipping outcome_enumNames_flipping hdoc
  refine ⟨f, g, hscript, hf, ?_⟩
  rw [hg]
  decide

theorem refersTo_flipping {type : String} (h : type ∈ flipArguments.map (·.type)) : flipping.RefersTo .bare type := by
  have harguments : ∀ type ∈ flipArguments.map (·.type),
      ∃ a ∈ (Roles.ofArguments (flipArguments.map flipping.described)).enumArguments, a.type.name = some type := by
    decide
  have hop : flipping.operation "flip" =
      .ok ⟨"flip", "flip an image", false, flipArguments.map flipping.described⟩ := rfl
  obtain ⟨a, ha, hname⟩ := harguments type h
  exact .argument outcome_nicknames_flipping (List.mem_singleton_self "flip") hop ha hname

theorem shown_flipping : (flipping.forceAll Config.bare.lazyEnumTypes).2.Shown "GEnum" "VipsAngle" := by
  have hhidden : (flipping.forceAll Config.bare.lazyEnumTypes).2.hidden = ["VipsDirection"] := by decide
  have hleaf : ∀ t ∈ flipping.snapshot.types, t.parent ≠ some "VipsDirection" := by decide
  rw [Shown, hhidden, snapshot_forceAll]
  refine ⟨by decide, ?_⟩
  intro between _ hbetween hmem
  rw [List.mem_singleton.1 hmem] at hbetween
  obtain ⟨_, ⟨t, ht, _, hparent⟩, _⟩ := Relation.TransGen.head'_iff.1 hbetween
  exact hleaf t ht hparent

end Registry

theorem handed_flipping : (Emission.emitAll .bare .accepting ⟨.flipping, ()⟩).outcome = .ok 2 ∧
    ∃ f g, Emission.handed .bare .accepting ⟨.flipping, ()⟩ = [f, g] ∧
      (Registry.flipping.autodoc .bare).outcome = .ok f ∧
      f.fileName = "ImageAutodoc.php" ∧ g.fileName = "Angle.php" := by
  obtain ⟨f, g, hscript, hf, hg⟩ := Registry.script_flipping
  have htakes := Sink.takes_accepting [f, g]
  have hautodoc : (Registry.flipping.autodoc .bare).outcome = .ok f := (List.cons.inj hscript).1
  exact ⟨(Emission.emitAll_of_takes hscript htakes).1, f, g, Emission.handed_of_takes hscript htakes, hautodoc, hf, hg⟩

theorem references_resolve_flipping : Config.bare.enumRoot = "GEnum" ∧
    (Emission.emitAll .bare .accepting ⟨.flipping, ()⟩).outcome = .ok 2 ∧
    ∃ f ∈ Emission.handed .bare .accepting ⟨.flipping, ()⟩, ∃ parts : Registry.flipping.Parts .bare f,
      "Angle" ∈ parts.references ∧ ∃ g ∈ Emission.handed .bare .accepting ⟨.flipping, ()⟩,
        g.fileName = "Angle.php" ∧ g.Declares .bare "Angle" := by
  have hroot : Config.bare.enumRoot = "GEnum" := rfl
  have hend := handed_flipping.1
  have hrefers : Registry.flipping.RefersTo .bare "VipsAngle" := Registry.refersTo_flipping (by decide)
  obtain ⟨f, hf, _, parts, hreferences, hfiles⟩ := Emission.references_resolve hroot hend
  obtain ⟨g, hg, hname, hdeclares⟩ := hfiles "VipsAngle" hrefers (by decide) (by decide) Registry.shown_flipping
  have hstripped : Config.bare.stripPrefix "VipsAngle" = "Angle" := by decide
  rw [hstripped] at hname hdeclares
  exact ⟨hroot, hend, f, hf, parts, (hreferences "Angle").2 ⟨_, hrefers, hstripped.symm⟩, g, hg, hname, hdeclares⟩

theorem references_unresolved_flipping : Registry.ofSnapshot Registry.flipping.snapshot = .ok .flipping ∧
    Config.bare.enumRoot = "GEnum" ∧
    (Emission.emitAll .bare .accepting ⟨.flipping, ()⟩).outcome = .ok 2 ∧
    ∃ f ∈ Emission.handed .bare .accepting ⟨.flipping, ()⟩, ∃ parts : Registry.flipping.Parts .bare f,
      ∀ enum ∈ ["Direction", "Shape", "GEnum"], enum ∈ parts.references ∧
        ∀ g ∈ Emission.handed .bare .accepting ⟨.flipping, ()⟩, g.fileName ≠ enum ++ ".php" := by
  obtain ⟨hend, f, g, hhanded, hautodoc, hf, hg⟩ := handed_flipping
  obtain ⟨parts⟩ := Registry.nonempty_parts hautodoc
  refine ⟨rfl, rfl, hend, f, ?_, parts, ?_⟩
  · rw [hhanded]
    exact List.mem_cons_self
  · intro enum henum
    have htypes : ∀ enum ∈ ["Direction", "Shape", "GEnum"], ∃ type ∈ Registry.flipArguments.map (·.type),
        enum = Config.bare.stripPrefix type := by
      decide
    obtain ⟨type, htype, he⟩ := htypes enum henum
    refine ⟨parts.mem_references_iff.2 ⟨type, Registry.refersTo_flipping htype, he⟩, ?_⟩
    have hnames : ∀ enum ∈ ["Direction", "Shape", "GEnum"],
        ∀ name ∈ ["ImageAutodoc.php", "Angle.php"], name ≠ enum ++ ".php" := by
      decide
    rw [hhanded]
    intro file hfile
    refine hnames enum henum _ ?_
    have hmem := List.mem_map_of_mem (f := (·.fileName)) hfile
    rwa [List.map_cons, List.map_cons, List.map_nil, hf, hg] at hmem

end Autodoc
