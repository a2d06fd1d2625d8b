import Autodoc.Emission
import Autodoc.Proofs.Causes
import Autodoc.Proofs.Flaws

namespace Autodoc

namespace HeaderConfig

def texts (h : HeaderConfig) : List String :=
  [h.phpVersion, h.copyrightYear, h.copyrightHolder, h.category, h.author, h.license, h.link]

end HeaderConfig

def Config.texts (c : Config) : List String :=
  [c.libraryPrefix, c.hostNamespace, c.operationRoot, c.enumRoot, c.autodocClass] ++ c.denyList ++ c.synonyms
    ++ c.lazyEnumTypes ++ (c.reservedNames.entries ++ c.argumentOverrides.entries
      ++ c.resultOverrides.entries).flatMap (fun e => [e.1, e.2]) ++ c.header.texts

/-- The first texts have the flaws of the second, unless the configuration has them too. -/
def SameFlaws (c : Config) (ts ws : List String) : Prop :=
  ∀ B, Flaw B → (∀ t ∈ c.texts, ¬ B t) → ((∃ t ∈ ts, B t) ↔ ∃ w ∈ ws, B w)

theorem Logged.each_induction {f : α → Logged ε β} {P : List α → List β → Prop} (hnil : P [] [])
    (hcons : ∀ a b as bs, (f a).outcome = .ok b → P as bs → P (a :: as) (b :: bs)) {as : List α} {bs : List β}
    (hok : (each f as).outcome = .ok bs) : P as bs := by
  induction as generalizing bs with
  | nil =>
    cases hok
    exact hnil
  | cons a as ih =>
    obtain ⟨b, hb, htail⟩ := outcome_bind_eq_ok_iff.1 hok
    obtain ⟨bs', hbs, hpure⟩ := outcome_bind_eq_ok_iff.1 htail
    cases hpure
    exact hcons a b as bs' hb (ih hbs)

namespace SameFlaws

variable {c : Config} {ts us vs ws : List String}

theorem refl (ts : List String) : SameFlaws c ts ts := fun _ _ _ => Iff.rfl

theorem append (h : SameFlaws c ts ws) (h' : SameFlaws c us vs) : SameFlaws c (ts ++ us) (ws ++ vs) := by
  intro B hB hc
  simp only [List.mem_append, or_and_right, exists_or, h B hB hc, h' B hB hc]

theorem capitalize (s : String) : SameFlaws c [Text.capitalize s] [s] := by
  intro B hB _
  simp [hB.capitalize]

theorem underscored (s : String) : SameFlaws c [variableName s] [s] := by
  intro B hB _
  simp [variableName, hB.underscored]

theorem configured {t : String} (h : t ∈ c.texts) : SameFlaws c [t] [] := by
  intro B _ hc
  simp [hc t h]

theorem plain {t : String} (hstar : '*' ∉ t.toList) (hline : '\n' ∉ t.toList) : SameFlaws c [t] [] := by
  intro B hB _
  simp [hB.plain t hstar hline]

theorem each {f : α → Logged ε β} {g : β → List String} {w : α → List String}
    (h : ∀ a b, (f a).outcome = .ok b → SameFlaws c (g b) (w a)) {as : List α} {bs : List β}
    (hok : (Logged.each f as).outcome = .ok bs) : SameFlaws c (bs.flatMap g) (as.flatMap w) := by
  apply Logged.each_induction (P := fun as bs => SameFlaws c (bs.flatMap g) (as.flatMap w)) (refl []) ?_ hok
  intro a b as bs hb htail
  exact (h a b hb).append htail

end SameFlaws

theorem Config.mem_texts_override {c : Config} {u : TypeUse} {name host : String}
    (h : (c.hostTable u).byName.get? name = some host) : host ∈ c.texts := by
  have hentry := Table.get?_eq_some_iff.1 h
  cases u <;> simp only [texts, List.mem_append, List.mem_flatMap, Config.hostTable] at hentry ⊢
  · exact .inl (.inr ⟨_, .inl (.inr hentry), by simp⟩)
  · exact .inl (.inr ⟨_, .inr hentry, by simp⟩)

theorem TypeUse.plain_of_defaults {u : TypeUse} {k : Kind} {host : String} (h : u.defaults k = some host) :
    '*' ∉ host.toList ∧ '\n' ∉ host.toList := by
  cases u <;> cases k <;> cases h <;> decide

theorem SameFlaws.host {c : Config} {context field host : String} {d : TypeDescriptor} {u : TypeUse}
    (h : (c.hostTypeIn context field d u).outcome = .ok host) : SameFlaws c [host] [] := by
  rw [Config.hostTypeIn, Logged.outcome_mapError, Config.hostType] at h
  split at h
  next found hl =>
    cases h
    unfold HostTable.lookup at hl
    split at hl
    next host' hname =>
      cases hl
      obtain ⟨name, _, hget⟩ := Option.bind_eq_some_iff.1 hname
      exact configured (Config.mem_texts_override hget)
    next =>
      rw [Config.byKind_hostTable] at hl
      obtain ⟨hstar, hline⟩ := TypeUse.plain_of_defaults hl
      exact plain hstar hline
  next =>
    split at h
    · cases h
      exact plain (by decide) (by decide)
    · cases h

def ReturnType.texts : ReturnType → List String
  | .void => []
  | .single host => [host]
  | .aggregate => []

namespace Signature

def texts (s : Signature) : List String :=
  s.returns.texts ++ [s.name] ++ s.params.flatMap (fun p => [p.host, p.name]) ++ [s.summary]
    ++ s.enumRefs.flatMap (fun e => [e.enum, e.param]) ++ s.outputs.flatMap fun o => [o.name, o.host, o.blurb]

theorem woven_returnText (r : ReturnType) : Woven r.texts (returnText r) := by
  cases r with
  | void => exact .fixed (by decide)
  | single host => exact .text host (by decide)
  | aggregate => exact .fixed (by decide)

theorem woven_paramText (p : Param) : Woven [p.host, p.name] (paramText p) :=
  (Woven.text p.host (by decide)).then_text p.name (by decide)

theorem docBlock_enumRefText (e : EnumRef) : DocBlock [e.enum, e.param] (enumRefText e) := by
  have hopening : Woven [] " *     @see " := .fixed (by decide)
  exact .text (hopening.then_text e.enum (by decide)) (.append (.append (by decide) _) _) e.param (by decide)

theorem docBlock_outputText (o : OutputDoc) : DocBlock [o.name, o.host, o.blurb] (outputText o) := by
  have hopening : Woven [] " *         '" := .fixed (by decide)
  have hhost := (hopening.then_text o.name (f := "' => @type ") (by decide)).then_text o.host (f := " ") (by decide)
  exact .text hhost (.append (.append (.append (.append (by decide) _) _) _) _) o.blurb (by decide)

theorem docBlock_outputsText (os : List OutputDoc) :
    DocBlock (os.flatMap fun o => [o.name, o.host, o.blurb]) (outputsText os) := by
  cases os with
  | nil => exact .nil
  | cons o os =>
    have hopening : DocBlock [] " *     Return array with: [\n" := .fixed (by decide) (by decide)
    have hclosing : DocBlock [] " *     ];\n" := .fixed (by decide) (by decide)
    have hlines := (hopening.append (.join docBlock_outputText (o :: os))).append hclosing
    rw [List.nil_append, List.append_nil] at hlines
    exact hlines

theorem docBlock_render (s : Signature) : DocBlock s.texts s.render := by
  -- the line of the method is woven up to its description, which is the last text of the line
  have hmethod : Woven [] (" * @method " ++ if s.isStatic then "static " else "") := by
    cases s.isStatic <;> exact .fixed (by decide)
  have hstarts : StartsLine (" * @method " ++ if s.isStatic then "static " else "") := .append (by decide) _
  have hname := (hmethod.append (woven_returnText s.returns)).then_text s.name (f := "(") (by decide)
  have hparams := (hname.append (.join woven_paramText s.params)).then_fixed (f := "array $options = []) ")
    (by decide)
  have hparamsStarts := ((((hstarts.append (returnText s.returns)).append s.name).append "(").append
    (String.join (s.params.map paramText))).append "array $options = []) "
  have hlines := (((DocBlock.text hparams hparamsStarts s.summary (e := ".\n") (by decide)).append
    (.join docBlock_enumRefText s.enumRefs)).append (docBlock_outputsText s.outputs)).append
    (.fixed (l := " *     @throws Exception\n") (by decide) (by decide))
  rw [List.nil_append, List.append_nil] at hlines
  exact hlines

end Signature

namespace PropertyDoc

def texts (p : PropertyDoc) : List String := [p.host, p.name, p.blurb] ++ p.enum.toList

theorem docBlock_render (p : PropertyDoc) : DocBlock p.texts p.render := by
  have hopening : Woven [] " * @property " := .fixed (by decide)
  have hname := (hopening.then_text p.host (f := " $") (by decide)).then_text p.name (f := " ") (by decide)
  have hline := DocBlock.text hname (.append (.append (.append (.append (by decide) _) _) _) _) p.blurb
    (e := "\n") (by decide)
  refine hline.append ?_
  cases p.enum with
  | none => exact .nil
  | some enum =>
    exact .text (l := " *     @see ") (.fixed (by decide)) (by decide) enum (by decide)

end PropertyDoc

def Operation.printed (c : Config) (op : Operation) : List String :=
  let roles := Roles.ofArguments op.arguments
  [op.nickname] ++ roles.inputs.flatMap (fun a => [a.name]) ++ [op.description]
    ++ roles.enumArguments.flatMap (fun a => (a.type.name.map c.stripPrefix).toList ++ [a.name])
    ++ if roles.returnShape = .aggregate then roles.outputs.flatMap fun a => [a.name, a.blurb] else []

def Property.printed (c : Config) (p : Property) : List String :=
  [p.name, p.blurb] ++ if p.type.isEnum then (p.type.name.map c.stripPrefix).toList else []

namespace SameFlaws

variable {c : Config} {nickname : String}

theorem returnType {shape : ReturnShape} {returns : ReturnType}
    (h : (Signature.returnType c nickname shape).outcome = .ok returns) : SameFlaws c returns.texts [] := by
  cases shape with
  | void =>
    cases h
    exact refl []
  | single a =>
    obtain ⟨host', hhost, hpure⟩ := Logged.outcome_bind_eq_ok_iff.1 h
    cases hpure
    exact host hhost
  | aggregate =>
    cases h
    exact refl []

theorem param (a : Argument) (p : Param) (h : (Signature.param c nickname a).outcome = .ok p) :
    SameFlaws c [p.host, p.name] [a.name] := by
  obtain ⟨host', hhost, hpure⟩ := Logged.outcome_bind_eq_ok_iff.1 h
  cases hpure
  exact (host hhost).append (underscored a.name)

theorem enumRefName {context field name : String} {d : TypeDescriptor}
    (h : c.enumRefName context field d = .ok name) : (d.name.map c.stripPrefix).toList = [name] := by
  unfold Config.enumRefName at h
  split at h
  · cases h
  next hname =>
    cases h
    rw [hname]
    rfl

theorem enumRef (a : Argument) (e : EnumRef) (h : (Signature.enumRef c nickname a).outcome = .ok e) :
    SameFlaws c [e.enum, e.param] ((a.type.name.map c.stripPrefix).toList ++ [a.name]) := by
  obtain ⟨enum, henum, hpure⟩ := Logged.outcome_bind_eq_ok_iff.1 h
  cases hpure
  rw [enumRefName henum]
  exact (refl [enum]).append (underscored a.name)

theorem outputDoc (a : Argument) (o : OutputDoc) (h : (Signature.outputDoc c nickname a).outcome = .ok o) :
    SameFlaws c [o.name, o.host, o.blurb] [a.name, a.blurb] := by
  obtain ⟨host', hhost, hpure⟩ := Logged.outcome_bind_eq_ok_iff.1 h
  cases hpure
  exact (underscored a.name).append ((host hhost).append (capitalize a.blurb))

theorem signature {op : Operation} {s : Signature} (h : (Signature.ofOperation c op).outcome = .ok s) :
    SameFlaws c s.texts (op.printed c) := by
  obtain ⟨returns, hreturns, h⟩ := Logged.outcome_bind_eq_ok_iff.1 h
  obtain ⟨params, hparams, h⟩ := Logged.outcome_bind_eq_ok_iff.1 h
  obtain ⟨enumRefs, hrefs, h⟩ := Logged.outcome_bind_eq_ok_iff.1 h
  have hlines := ((((returnType hreturns).append (refl [op.nickname])).append (each param hparams)).append
    (capitalize op.description)).append (each enumRef hrefs)
  simp only [Operation.printed]
  split at h
  next hs =>
    obtain ⟨outputs, houtputs, h⟩ := Logged.outcome_bind_eq_ok_iff.1 h
    cases h
    rw [if_pos hs]
    exact hlines.append (each outputDoc houtputs)
  next hs =>
    cases h
    rw [if_neg hs]
    exact hlines.append (refl [])

theorem propertyDoc {p : Property} {d : PropertyDoc} (h : (Registry.propertyDoc c p).outcome = .ok d) :
    SameFlaws c d.texts (p.printed c) := by
  obtain ⟨host', hhost, h⟩ := Logged.outcome_bind_eq_ok_iff.1 h
  have hline := ((host hhost).append (underscored p.name)).append (refl [p.blurb])
  unfold Property.printed
  split at h
  next he =>
    obtain ⟨enum, henum, h⟩ := Logged.outcome_bind_eq_ok_iff.1 h
    cases h
    rw [if_pos he, enumRefName henum]
    exact hline.append (refl [enum])
  next he =>
    cases h
    rw [if_neg he]
    exact hline.append (refl [])

end SameFlaws

/-- Doc lines with the flaws of the texts that are printed in them. -/
def Documents (c : Config) (ws : List String) (s : String) : Prop := ∃ ts, DocBlock ts s ∧ SameFlaws c ts ws

namespace Documents

variable {c : Config} {ws vs : List String} {s s' : String}

theorem append (h : Documents c ws s) (h' : Documents c vs s') : Documents c (ws ++ vs) (s ++ s') := by
  obtain ⟨ts, hblock, hflaws⟩ := h
  obtain ⟨us, hblock', hflaws'⟩ := h'
  exact ⟨ts ++ us, hblock.append hblock', hflaws.append hflaws'⟩

theorem fixed (h : LineEnd s) (hs : StartsLine s) : Documents c [] s := ⟨[], .fixed h hs, .refl []⟩

theorem each {f : α → Logged ε β} {g : β → String} {w : α → List String}
    (h : ∀ a b, (f a).outcome = .ok b → Documents c (w a) (g b)) {as : List α} {bs : List β}
    (hok : (Logged.each f as).outcome = .ok bs) : Documents c (as.flatMap w) (String.join (bs.map g)) := by
  apply Logged.each_induction (P := fun as bs => Documents c (as.flatMap w) (String.join (bs.map g))) ?_ ?_ hok
  · exact ⟨[], .nil, .refl []⟩
  · intro a b as bs hb htail
    rw [List.flatMap_cons, List.map_cons, String.join_cons]
    exact (h a b hb).append htail

theorem tagLine {tag value : String} (htag : Fixed (" * @" ++ tag ++ "".pushn ' ' (9 - tag.length) ++ " "))
    (h : SameFlaws c [value] []) : Documents c [] (HeaderConfig.tagLine tag value) :=
  ⟨[value], .text (.fixed htag) (.append (.append (.append (by decide) _) _) _) value (by decide), h⟩

theorem classTags (c : Config) : Documents c [] (c.header.classTags c.hostNamespace) := by
  have hconfigured (t : String) (h : t ∈ c.header.texts) : SameFlaws c [t] [] :=
    .configured (List.mem_append_right _ h)
  have hnamespace : SameFlaws c [c.hostNamespace] [] := .configured (by simp [Config.texts])
  have hholder : SameFlaws c [c.header.holder] [] := by
    intro B hB hc
    have hyear := hc c.header.copyrightYear (by simp [Config.texts, HeaderConfig.texts])
    have hname := hc c.header.copyrightHolder (by simp [Config.texts, HeaderConfig.texts])
    simp [HeaderConfig.holder, hB.spaced, hyear, hname]
  have hcategory : Documents c [] (HeaderConfig.tagLine "category" c.header.category) :=
    tagLine (by decide) (hconfigured _ (by simp [HeaderConfig.texts]))
  have hpackage : Documents c [] (HeaderConfig.tagLine "package" c.hostNamespace) :=
    tagLine (by decide) hnamespace
  have hauthor : Documents c [] (HeaderConfig.tagLine "author" c.header.author) :=
    tagLine (by decide) (hconfigured _ (by simp [HeaderConfig.texts]))
  have hcopyright : Documents c [] (HeaderConfig.tagLine "copyright" c.header.holder) :=
    tagLine (by decide) hholder
  have hlicense : Documents c [] (HeaderConfig.tagLine "license" c.header.license) :=
    tagLine (by decide) (hconfigured _ (by simp [HeaderConfig.texts]))
  have hlink : Documents c [] (HeaderConfig.tagLine "link" c.header.link) :=
    tagLine (by decide) (hconfigured _ (by simp [HeaderConfig.texts]))
  exact ((((hcategory.append hpackage).append hauthor).append hcopyright).append hlicense).append hlink

end Documents

def Config.commented (c : Config) (comment : String) : String :=
  c.header.preamble c.hostNamespace
    ++ "\nnamespace " ++ c.hostNamespace ++ ";\n\n/**\n" ++ comment ++ " */\n"
    ++ "abstract class " ++ c.autodocClass ++ "\n\x7b\n\x7d\n"

namespace Registry

variable {r : Registry} {c : Config}

/-- The recorded texts that stand in the doc comment: those of the documented operations, then those of the
properties. -/
def printed (r : Registry) (c : Config) : List String :=
  (match (r.nicknames c).outcome with
    | .error _ => []
    | .ok names => names.toList.flatMap fun n =>
      match r.operation n with
      | .error _ => []
      | .ok op => op.printed c)
    ++ (r.snapshot.properties.map r.describedProperty).flatMap (Property.printed c)

theorem documents_method (n doc : String) (h : (r.documented c n).outcome = .ok doc) :
    Documents c (match r.operation n with
      | .error _ => []
      | .ok op => op.printed c) doc := by
  obtain ⟨_, _, h⟩ := Logged.outcome_bind_eq_ok_iff.1 h
  obtain ⟨s, hs, h⟩ := Logged.outcome_bind_eq_ok_iff.1 h
  cases h
  obtain ⟨op, hop, hs⟩ := Logged.outcome_bind_eq_ok_iff.1 hs
  cases ho : r.operation n with
  | error e => simp [operationOf, ho, Except.mapError] at hop
  | ok op' =>
    have heq : op' = op := by simpa [operationOf, ho, Except.mapError] using hop
    subst heq
    exact ⟨s.texts, s.docBlock_render, .signature hs⟩

theorem documents_property (p : Property) (d : PropertyDoc) (h : (propertyDoc c p).outcome = .ok d) :
    Documents c (p.printed c) d.render :=
  ⟨d.texts, d.docBlock_render, .propertyDoc h⟩

theorem classFile_eq_commented (c : Config) (doc : String) :
    c.classFile "Autodocs for the Image class." doc c.autodocClass "" =
      c.commented (" * Autodocs for the Image class.\n" ++ (c.header.classTags c.hostNamespace ++ doc)) := by
  have htitle : " * Autodocs for the Image class.\n" = " * " ++ "Autodocs for the Image class." ++ "\n" := rfl
  have hbraces : "\n\x7b\n\x7d\n" = "\n\x7b\n" ++ "\x7d\n" := rfl
  rw [htitle, Config.classFile, Config.commented, hbraces, String.append_empty]
  simp only [String.append_assoc]

theorem exists_comment {f : EmittedFile} (h : (r.autodoc c).outcome = .ok f) : ∃ lines,
    f.contents = c.commented (" * Autodocs for the Image class.\n" ++ lines) ∧
      Documents c (r.printed c) (" * Autodocs for the Image class.\n" ++ lines) := by
  obtain ⟨names, hnames, h⟩ := Logged.outcome_bind_eq_ok_iff.1 h
  obtain ⟨methods, hmethods, h⟩ := Logged.outcome_bind_eq_ok_iff.1 h
  obtain ⟨properties, hproperties, h⟩ := Logged.outcome_bind_eq_ok_iff.1 h
  cases h
  refine ⟨_, classFile_eq_commented c _, ?_⟩
  have htitle : Documents c [] " * Autodocs for the Image class.\n" := .fixed (by decide) (by decide)
  have hblank : Documents c [] " *\n" := .fixed (by decide) (by decide)
  have hmethodLines := Documents.each (g := id) documents_method hmethods
  have hpropertyLines : Documents c ((r.snapshot.properties.map r.describedProperty).flatMap (Property.printed c))
      (String.join (properties.map PropertyDoc.render)) := by
    rw [propertyDocs, Logged.outcome_bind, Logged.outcome_ofExcept, properties_eq_ok] at hproperties
    exact .each documents_property hproperties
  rw [List.map_id] at hmethodLines
  have hlines := htitle.append ((Documents.classTags c).append
    (((hblank.append hmethodLines).append hblank).append hpropertyLines))
  simpa only [printed, hnames, List.nil_append, List.append_nil] using hlines

/-- What the registry records goes into the doc comment of the autodoc file as it is. The comment is closed before its
end just if one of the recorded texts closes it, and all its lines are doc lines unless one of these texts breaks
off. -/
theorem autodoc_comment (hc : ∀ t ∈ c.texts, ¬ Closes t ∧ ¬ Breaks t) {f : EmittedFile}
    (h : (r.autodoc c).outcome = .ok f) : ∃ lines,
      f.contents = c.commented (" * Autodocs for the Image class.\n" ++ lines) ∧
      (Closes (" * Autodocs for the Image class.\n" ++ lines) ↔ ∃ t ∈ r.printed c, Closes t) ∧
      ((∀ t ∈ r.printed c, ¬ Breaks t) → DocLines (" * Autodocs for the Image class.\n" ++ lines)) := by
  obtain ⟨lines, hcontents, ts, hblock, hflaws⟩ := exists_comment h
  refine ⟨lines, hcontents, ?_, fun hprinted => hblock.docLines ?_⟩
  · exact hblock.closes_iff.trans (hflaws _ closes_flaw fun t ht => (hc t ht).1)
  · intro t ht hbreaks
    obtain ⟨w, hw, hbroken⟩ := (hflaws _ breaks_flaw fun t ht => (hc t ht).2).1 ⟨t, ht, hbreaks⟩
    exact hprinted w hw hbroken

end Registry

def Registry.describedBy (description : String) : Registry where
  snapshot :=
    { types :=
        [⟨"VipsOperation", some "GObject", none, true, false⟩,
          ⟨"VipsInvert", some "VipsOperation", some "invert", false, false⟩]
      operations := .ofList [("invert", ⟨description, false, []⟩)]
      enums := {}
      properties := []
      lazyTypes := [] }
  sound := rfl
  hidden := []

def Signature.ofDescription (description : String) : Signature where
  isStatic := true
  returns := .void
  name := "invert"
  params := []
  summary := Text.capitalize description
  enumRefs := []
  outputs := []

def Config.linesOf (c : Config) (s : Signature) : String :=
  c.header.classTags c.hostNamespace ++ (" *\n" ++ s.render ++ " *\n")

namespace Registry

theorem outcome_nicknames_describedBy (description : String) :
    ((describedBy description).nicknames .bare).outcome = .ok ⟨#["invert"]⟩ := by
  have hlisted : ["VipsInvert"].filterMap (describedBy description).liveNickname? = ["invert"] := rfl
  have hleaf : ∀ type ∈ ["VipsInvert"], (describedBy description).children type = [] := by
    intro type htype
    rw [List.mem_singleton.1 htype]
    rfl
  have hchildren : (describedBy description).children Config.bare.operationRoot = ["VipsInvert"] := rfl
  exact outcome_nicknames_of_leaves rfl hchildren hleaf (List.nodup_singleton _) hlisted

theorem printed_describedBy (description : String) :
    (describedBy description).printed .bare = ["invert", description] := by
  rw [printed, outcome_nicknames_describedBy]
  rfl

theorem autodoc_describedBy (description : String) :
    ∃ f, ((describedBy description).autodoc .bare).outcome = .ok f ∧
      f.contents = Config.bare.commented
        (" * Autodocs for the Image class.\n" ++ Config.bare.linesOf (.ofDescription description)) := by
  have hoperation : (describedBy description).operation "invert" = .ok ⟨"invert", description, false, []⟩ := rfl
  have hmethods : (Logged.each ((describedBy description).documented .bare) ["invert"]).outcome =
      .ok [(Signature.ofDescription description).render] := by
    simp only [Logged.outcome_each_cons, documented, methodDoc, signature, operationOf, hoperation,
      Logged.outcome_bind]
    rfl
  have hproperties : ((describedBy description).propertyDocs .bare).outcome = .ok [] := by
    rw [propertyDocs, Logged.outcome_bind, Logged.outcome_ofExcept, properties_eq_ok]
    rfl
  simp only [autodoc, Logged.outcome_bind, outcome_nicknames_describedBy, NicknameSet.toList, hmethods,
    hproperties, Except.bind]
  refine ⟨_, rfl, ?_⟩
  rw [classFile_eq_commented, Config.linesOf]
  simp only [String.join_cons, String.join_nil, List.map_nil, String.append_empty]

theorem flawless_bare : ∀ t ∈ Config.bare.texts, ¬ Closes t ∧ ¬ Breaks t := by decide +kernel

theorem autodoc_comment_invert : (∀ t ∈ Config.bare.texts, ¬ Closes t ∧ ¬ Breaks t) ∧
    ∃ f, ((describedBy "invert an image").autodoc .bare).outcome = .ok f ∧
      ∃ lines, f.contents = Config.bare.commented (" * Autodocs for the Image class.\n" ++ lines) ∧
        ¬ Closes (" * Autodocs for the Image class.\n" ++ lines) ∧
        DocLines (" * Autodocs for the Image class.\n" ++ lines) := by
  obtain ⟨f, hf, _⟩ := autodoc_describedBy "invert an image"
  obtain ⟨lines, hcontents, hcloses, hlines⟩ := autodoc_comment flawless_bare hf
  rw [printed_describedBy] at hcloses hlines
  exact ⟨flawless_bare, f, hf, lines, hcontents, fun h => absurd (hcloses.1 h) (by decide), hlines (by decide)⟩

def careless : Registry := describedBy "ends */ here\nbare line"

theorem autodoc_comment_careless : ofSnapshot careless.snapshot = .ok careless ∧
    (∀ t ∈ Config.bare.texts, ¬ Closes t ∧ ¬ Breaks t) ∧
    ∃ f, (careless.autodoc .bare).outcome = .ok f ∧
      ∃ lines, f.contents = Config.bare.commented (" * Autodocs for the Image class.\n" ++ lines) ∧
        Closes (" * Autodocs for the Image class.\n" ++ lines) ∧
        ¬ DocLines (" * Autodocs for the Image class.\n" ++ lines) := by
  obtain ⟨f, hf, hcontents⟩ := autodoc_describedBy "ends */ here\nbare line"
  refine ⟨rfl, flawless_bare, f, hf, _, hcontents, ?_⟩
  have hrender : " *\n" ++ (Signature.ofDescription "ends */ here\nbare line").render ++ " *\n" =
      " *\n * @method static void invert(array $options = []) Ends */ here\n" ++
        "bare line.\n *     @throws Exception\n *\n" := by decide +kernel
  rw [Config.linesOf, hrender, ← String.append_assoc, ← String.append_assoc]
  constructor
  · rw [closes_append, closes_append]
    exact .inl (.inr (.inl (by decide)))
  · intro h
    -- what follows the newline of the description is a line of its own
    have hline : " *\n * @method static void invert(array $options = []) Ends */ here\n".toList.getLast? =
        some '\n' := by decide
    have hbare := h.starts _ _ String.toList_append
      (by rw [String.toList_append, List.getLast?_append, hline]; simp) (by decide)
    revert hbare
    decide

end Registry

end Autodoc
