import Autodoc.CommandLine.Run
import Autodoc.Proofs.AutodocParts
import Autodoc.Proofs.TaggedLines

namespace Autodoc

def Snapshot.texts (s : Snapshot) : List String :=
  s.types.flatMap (fun t => t.name :: (t.parent.toList ++ t.nickname.toList))
    ++ s.operations.entries.flatMap (fun e =>
      [e.1, e.2.description] ++ e.2.arguments.flatMap fun a => [a.name, a.type, a.blurb])
    ++ s.enums.entries.flatMap (fun e => e.1 :: e.2) ++ s.properties.flatMap (fun p => [p.name, p.type, p.blurb])
    ++ s.lazyTypes

theorem Operation.printed_subset (c : Config) (op : Operation) : op.printed c ⊆ [op.nickname, op.description] ++
    op.arguments.flatMap fun a => [a.name, a.blurb] ++ (a.type.name.map c.stripPrefix).toList := by
  intro w hw
  have hof {a : Argument} (ha : a ∈ op.arguments)
      (h : w ∈ [a.name, a.blurb] ++ (a.type.name.map c.stripPrefix).toList) : w ∈ [op.nickname, op.description] ++
        op.arguments.flatMap fun a => [a.name, a.blurb] ++ (a.type.name.map c.stripPrefix).toList :=
    List.mem_append_right _ (List.mem_flatMap.2 ⟨a, ha, h⟩)
  simp only [printed, List.mem_append, List.mem_flatMap] at hw
  rcases hw with (((hw | ⟨a, ha, hw⟩) | hw) | ⟨a, ha, hw⟩) | hw
  · exact List.mem_append_left _ (List.mem_cons.2 (.inl (List.mem_singleton.1 hw)))
  · exact hof (Roles.mem_inputs ha) (List.mem_cons.2 (.inl (List.mem_singleton.1 hw)))
  · exact List.mem_append_left _ (List.mem_cons_of_mem _ hw)
  · refine hof (Roles.mem_enumArguments ha) ?_
    rcases hw with hw | hw
    · exact List.mem_append_right _ hw
    · exact List.mem_cons.2 (.inl (List.mem_singleton.1 hw))
  · split at hw
    · obtain ⟨a, ha, hw⟩ := List.mem_flatMap.1 hw
      exact hof (Roles.mem_outputs ha) (List.mem_append_left _ hw)
    · cases hw

namespace Registry

variable {r : Registry} {c : Config}

theorem not_breaks_describe {type : String} (h : ¬ Breaks type) :
    ∀ w ∈ ((r.describe type).name.map c.stripPrefix).toList, ¬ Breaks w := by
  have hstrip : ¬ Breaks (c.stripPrefix type) := by
    unfold Config.stripPrefix
    split
    · intro hb
      rw [Breaks, String.toList_ofList] at hb
      exact h (List.mem_of_mem_drop hb)
    · exact h
  rw [describe]
  split
  · simp
  · simpa using hstrip

theorem not_breaks_operation {n : String} {op : Operation} (hr : ∀ t ∈ r.snapshot.texts, ¬ Breaks t)
    (h : r.operation n = .ok op) : ∀ w ∈ op.printed c, ¬ Breaks w := by
  obtain ⟨_, o, ho, rfl⟩ := operation_eq_ok_iff.1 h
  have hentry := Table.get?_eq_some_iff.1 ho
  have htexts : ∀ t, (t ∈ [n, o.description] ∨ ∃ a ∈ o.arguments, t ∈ [a.name, a.type, a.blurb]) → ¬ Breaks t := by
    intro t ht
    apply hr
    simp only [Snapshot.texts, List.mem_append, List.mem_flatMap]
    exact .inl (.inl (.inl (.inr ⟨_, hentry, ht⟩)))
  intro w hw
  rcases List.mem_append.1 (Operation.printed_subset c _ hw) with hw | hw
  · exact htexts w (.inl hw)
  · obtain ⟨_, hdescribed, hw⟩ := List.mem_flatMap.1 hw
    obtain ⟨a, ha, rfl⟩ := List.mem_map.1 hdescribed
    have hargument : ∀ t ∈ [a.name, a.type, a.blurb], ¬ Breaks t := fun t ht => htexts t (.inr ⟨a, ha, ht⟩)
    rcases List.mem_append.1 hw with hw | hw
    · refine hargument w ?_
      simp only [described, List.mem_cons, List.not_mem_nil, or_false] at hw ⊢
      exact hw.imp_right .inr
    · exact not_breaks_describe (hargument a.type (by simp)) w hw

theorem not_breaks_property {p : PropertyRecord} (hr : ∀ t ∈ r.snapshot.texts, ¬ Breaks t)
    (hp : p ∈ r.snapshot.properties) : ∀ w ∈ (r.describedProperty p).printed c, ¬ Breaks w := by
  have htexts : ∀ t ∈ [p.name, p.type, p.blurb], ¬ Breaks t := by
    intro t ht
    apply hr
    simp only [Snapshot.texts, List.mem_append, List.mem_flatMap]
    exact .inl (.inr ⟨p, hp, ht⟩)
  intro w hw
  rcases List.mem_append.1 hw with hw | hw
  · refine htexts w ?_
    simp only [describedProperty, List.mem_cons, List.not_mem_nil, or_false] at hw ⊢
    exact hw.imp_right .inr
  · split at hw
    · exact not_breaks_describe (htexts p.type (by simp)) w hw
    · cases hw

end Registry

namespace CommandLine

theorem Sources.state_loadConfig (sources : Sources) (console : Console) :
    (sources.loadConfig console).state = console := by
  unfold loadConfig
  split <;> rfl

theorem output_runList {r : Registry} {c : Config} {names : NicknameSet} {sources : Sources} {console : Console}
    (hr : (sources.registry console).outcome = .ok r)
    (hc : (sources.loadConfig (sources.registry console).state).outcome = .ok c)
    (hnames : (r.nicknames c).outcome = .ok names) : (runList sources .operations console).state.output =
      (sources.registry console).state.output ++ String.join (names.toList.map (· ++ "\n")) := by
  have hlisted (k : Console) :
      ((generating (do return (← r.nicknames c).toList) : Run (List String)) k).outcome = .ok names.toList := by
    simp only [generating, Action.ask, Logged.outcome_mapError, Logged.outcome_bind, hnames, Except.bind,
      Logged.outcome_pure, Except.mapError]
  rw [runList, Action.bind_of_ok hr, Action.bind_of_ok hc, Sources.state_loadConfig]
  dsimp only
  rw [Action.bind_of_ok (hlisted _)]
  rfl

end CommandLine

namespace Registry

variable {r : Registry} {c : Config}

theorem not_breaks_signature {n : String} {s : Signature} (hr : ∀ t ∈ r.snapshot.texts, ¬ Breaks t)
    (hc : ∀ t ∈ c.texts, ¬ Breaks t) (h : (r.signature c n).outcome = .ok s) : ∀ t ∈ s.texts, ¬ Breaks t := by
  obtain ⟨op, hop, hs⟩ := exists_operation h
  intro t ht hbreaks
  obtain ⟨w, hw, hbroken⟩ := (SameFlaws.signature hs _ breaks_flaw hc).1 ⟨t, ht, hbreaks⟩
  exact not_breaks_operation hr hop w hw hbroken

theorem not_breaks_propertyDoc {p : PropertyRecord} {d : PropertyDoc} (hr : ∀ t ∈ r.snapshot.texts, ¬ Breaks t)
    (hc : ∀ t ∈ c.texts, ¬ Breaks t) (hp : p ∈ r.snapshot.properties)
    (h : (propertyDoc c (r.describedProperty p)).outcome = .ok d) : ∀ t ∈ d.texts, ¬ Breaks t := by
  intro t ht hbreaks
  obtain ⟨w, hw, hbroken⟩ := (SameFlaws.propertyDoc h _ breaks_flaw hc).1 ⟨t, ht, hbreaks⟩
  exact not_breaks_property hr hp w hw hbroken

/-- The method lines of the autodoc file are those of its signatures, and the property lines those of its properties. -/
theorem Parts.linesFrom_eq {f : EmittedFile} (parts : r.Parts c f) (hr : ∀ t ∈ r.snapshot.texts, ¬ Breaks t)
    (hc : ∀ t ∈ c.texts, ¬ Breaks t) : linesFrom methodMark f.contents = parts.signatures.map Signature.line ∧
      linesFrom propertyMark f.contents = parts.docs.map PropertyDoc.line := by
  have hmethods : ∀ s ∈ parts.signatures,
      Listing methodMark [s.line] s.render ∧ Listing propertyMark [] s.render := by
    intro s hs
    obtain ⟨_, _, hsignature⟩ := exists_of_forall₂ parts.signed hs
    exact Signature.listing_render (not_breaks_signature hr hc hsignature)
  have hproperties : ∀ d ∈ parts.docs, Listing methodMark [] d.render ∧ Listing propertyMark [d.line] d.render := by
    intro d hd
    obtain ⟨_, hdescribed, hdoc⟩ := exists_of_forall₂ parts.shown hd
    obtain ⟨p, hp, rfl⟩ := List.mem_map.1 hdescribed
    exact PropertyDoc.listing_render (not_breaks_propertyDoc hr hc hp hdoc)
  have hblank : Silent " *\n" := .fixed (by decide) (by decide)
  obtain ⟨before, after, hbefore, hafter, hfile⟩ := Config.exists_silent hc
  rw [parts.contents, hfile]
  constructor
  · have hlines := ((hblank.1.append (.join_line fun s hs => (hmethods s hs).1)).append hblank.1).append
      (.join_nil fun d hd => (hproperties d hd).1)
    have hall := ((hbefore.1.append hlines).append hafter.1).linesFrom_eq (by decide)
    rw [hall]
    simp only [List.nil_append, List.append_nil]
  · have hlines := ((hblank.2.append (.join_nil fun s hs => (hmethods s hs).2)).append hblank.2).append
      (.join_line fun d hd => (hproperties d hd).2)
    have hall := ((hbefore.2.append hlines).append hafter.2).linesFrom_eq (by decide)
    rw [hall]
    simp only [List.nil_append, List.append_nil]

theorem paren_notMem_returnText {n : String} {s : Signature} (h : (r.signature c n).outcome = .ok s)
    (hhosts : ∀ type host, r.snapshot.isKnown type → (c.hostType (r.describe type) .result).outcome = .ok host →
      '(' ∉ host.toList) : '(' ∉ (Signature.returnText s.returns).toList := by
  obtain ⟨op, hop, hs⟩ := exists_operation h
  obtain ⟨_, hreturns, _⟩ := Signature.of_operation hs
  cases hshape : (Roles.ofArguments op.arguments).returnShape with
  | void =>
    rw [hshape] at hreturns
    rw [← Except.ok.inj hreturns]
    decide
  | aggregate =>
    rw [hshape] at hreturns
    rw [← Except.ok.inj hreturns]
    decide
  | single a =>
    rw [hshape] at hreturns
    obtain ⟨host, hhost, hpure⟩ := Logged.outcome_bind_eq_ok_iff.1 hreturns
    have hreturn := Except.ok.inj hpure
    have ha : a ∈ op.arguments := by
      apply Roles.mem_outputs
      rw [Roles.returnShape_eq_single hshape]
      exact List.mem_singleton_self a
    obtain ⟨_, o, ho, rfl⟩ := operation_eq_ok_iff.1 hop
    obtain ⟨b, hb, rfl⟩ := List.mem_map.1 ha
    have hknown := r.wellFormed.arguments _ (Table.get?_eq_some_iff.1 ho) b hb
    have hplain := hhosts b.type host hknown (Config.hostType_of_hostTypeIn hhost)
    rw [← hreturn]
    simp [Signature.returnText, hplain]

theorem propertyLine {p : Property} {d : PropertyDoc} (h : (propertyDoc c p).outcome = .ok d) :
    ∃ host, (c.hostType p.type .argument).outcome = .ok host ∧
      d.line = propertyMark ++ host ++ " $" ++ variableName p.name ++ " " ++ p.blurb := by
  obtain ⟨host, hhost, h⟩ := Logged.outcome_bind_eq_ok_iff.1 h
  refine ⟨host, Config.hostType_of_hostTypeIn hhost, ?_⟩
  split at h
  · obtain ⟨enum, _, hpure⟩ := Logged.outcome_bind_eq_ok_iff.1 h
    cases hpure
    rfl
  · cases h
    rfl

/-- The autodoc file lists what is documented. Where no text breaks off and no parenthesis or blank keeps a name from
being read, the names in its method lines are the documented nicknames in their order, as the command line prints
them, and its property lines show the properties in theirs. -/
theorem autodoc_lists (htexts : ∀ t ∈ r.snapshot.texts ++ c.texts, ¬ Breaks t)
    (hhosts : ∀ type host, r.snapshot.isKnown type → (c.hostType (r.describe type) .result).outcome = .ok host →
      '(' ∉ host.toList)
    (hplain : ∀ names, (r.nicknames c).outcome = .ok names → ∀ n ∈ names.toList, ' ' ∉ n.toList ∧ '(' ∉ n.toList)
    {f : EmittedFile} (h : (r.autodoc c).outcome = .ok f) :
    ∃ names properties, (r.nicknames c).outcome = .ok names ∧ r.properties = .ok properties ∧
      (linesFrom " * @method " f.contents).map methodName = names.toList ∧
      List.Forall₂ (fun p line => ∃ host, (c.hostType p.type .argument).outcome = .ok host ∧
        line = " * @property " ++ host ++ " $" ++ variableName p.name ++ " " ++ p.blurb)
        properties (linesFrom " * @property " f.contents) ∧
      ∀ (sources : CommandLine.Sources) console, (sources.registry console).outcome = .ok r →
        (sources.loadConfig (sources.registry console).state).outcome = .ok c →
        (CommandLine.runList sources .operations console).state.output =
          (sources.registry console).state.output ++ String.join (names.toList.map (· ++ "\n")) := by
  obtain ⟨hr, hc⟩ := List.forall_mem_append.1 htexts
  obtain ⟨parts⟩ := nonempty_parts h
  obtain ⟨hmethods, hproperties⟩ := parts.linesFrom_eq hr hc
  refine ⟨parts.names, _, parts.listed, properties_eq_ok r, ?_, ?_, ?_⟩
  · have hread : ∀ n ∈ parts.names.toList, ∀ s, (r.signature c n).outcome = .ok s → methodName s.line = n := by
      intro n hn s hs
      have hname := name_of_signature hs
      have hword := hplain parts.names parts.listed n hn
      rw [Signature.methodName_line (paren_notMem_returnText hs hhosts) (hname ▸ hword), hname]
    have hlines := map_eq_of_forall₂ parts.signed (g := fun s => methodName s.line) hread
    have hmark : " * @method " = methodMark := rfl
    rw [hmark, hmethods, List.map_map]
    exact hlines
  · have hmark : " * @property " = propertyMark := rfl
    rw [hmark, hproperties, List.forall₂_map_right_iff]
    exact parts.shown.imp fun _ _ => propertyLine
  · intro sources console hregistry hconfig
    exact CommandLine.output_runList hregistry hconfig parts.listed

end Registry

/-- An operation that makes an image of an image, and a property of images. -/
def Registry.inverting : Registry where
  snapshot :=
    { types :=
        [⟨"VipsOperation", some "GObject", none, true, false⟩,
          ⟨"VipsInvert", some "VipsOperation", some "invert", false, false⟩]
      operations :=
        .ofList [("invert", ⟨"invert an image", false,
          [⟨"in", 19, "VipsImage", "Input image"⟩, ⟨"out", 35, "VipsImage", "Output image"⟩]⟩)]
      enums := {}
      properties := [⟨"width", "gint", "Image width in pixels"⟩]
      lazyTypes := [] }
  sound := by decide
  hidden := []

theorem Registry.outcome_nicknames_inverting : (Registry.inverting.nicknames .bare).outcome = .ok ⟨#["invert"]⟩ := by
  have hlisted : ["VipsInvert"].filterMap Registry.inverting.liveNickname? = ["invert"] := by decide
  exact outcome_nicknames_of_leaves (by decide) (by decide) (by decide) (by decide) hlisted

theorem Registry.autodoc_inverting : ∃ f, (Registry.inverting.autodoc .bare).outcome = .ok f := by
  obtain ⟨doc, hdoc⟩ : ∃ doc, (Registry.inverting.documented .bare "invert").outcome = .ok doc := ⟨_, rfl⟩
  obtain ⟨docs, hdocs⟩ : ∃ docs, (Registry.inverting.propertyDocs .bare).outcome = .ok docs := ⟨_, rfl⟩
  simp only [autodoc, Logged.outcome_bind, outcome_nicknames_inverting, NicknameSet.toList,
    Logged.outcome_each_cons, hdoc, hdocs, Except.bind]
  exact ⟨_, rfl⟩

theorem Config.paren_notMem_bare (d : TypeDescriptor) (host : String)
    (h : (Config.bare.hostType d .result).outcome = .ok host) : '(' ∉ host.toList := by
  have hdefaults : ∀ k host, TypeUse.defaults .result k = some host → '(' ∉ host.toList := by
    intro k host hk
    cases k <;> cases hk <;> decide
  rw [hostType] at h
  split at h
  next found hl =>
    cases h
    unfold HostTable.lookup at hl
    split at hl
    next named hname =>
      obtain ⟨_, _, hnone⟩ := Option.bind_eq_some_iff.1 hname
      cases hnone
    next => exact hdefaults _ _ hl
  next =>
    cases h
    decide

theorem Registry.autodoc_lists_inverting :
    (∀ t ∈ Registry.inverting.snapshot.texts ++ Config.bare.texts, ¬ Breaks t) ∧
    ∃ f, (Registry.inverting.autodoc .bare).outcome = .ok f ∧
      (linesFrom " * @method " f.contents).map methodName = ["invert"] ∧
      linesFrom " * @property " f.contents = [" * @property integer $width Image width in pixels"] := by
  have htexts : ∀ t ∈ Registry.inverting.snapshot.texts ++ Config.bare.texts, ¬ Breaks t :=
    List.forall_mem_append.2 ⟨by decide +kernel, fun t ht => (flawless_bare t ht).2⟩
  obtain ⟨f, hf⟩ := autodoc_inverting
  obtain ⟨names, properties, hnames, hproperties, hmethods, hlines, _⟩ := autodoc_lists htexts
    (fun type host _ => Config.paren_notMem_bare _ host) (fun names hnames => by
      rw [outcome_nicknames_inverting] at hnames
      cases hnames
      decide) hf
  rw [outcome_nicknames_inverting] at hnames
  cases hnames
  refine ⟨htexts, f, hf, hmethods, ?_⟩
  cases hproperties
  obtain ⟨line, _, ⟨host, hhost, hline⟩, hnil, heq⟩ := List.forall₂_cons_left_iff.1 hlines
  rw [heq, List.forall₂_nil_left_iff.1 hnil, hline]
  cases hhost
  decide +kernel

end Autodoc
