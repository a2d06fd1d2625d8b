import Autodoc.Proofs.EnumTypes
import Autodoc.Proofs.Nicknames
import Autodoc.Proofs.Taking

namespace Autodoc

namespace Snapshot

/-- The same types, operations, enums and late types, each recorded in an order of its own. -/
structure Reordered (s t : Snapshot) : Prop where
  types : s.types.Perm t.types
  operations : s.operations.entries.Perm t.operations.entries
  enums : s.enums.entries.Perm t.enums.entries
  properties : s.properties = t.properties
  lazyTypes : s.lazyTypes.Perm t.lazyTypes

variable {s t : Snapshot}

namespace Reordered

theorem symm (h : s.Reordered t) : t.Reordered s :=
  ⟨h.types.symm, h.operations.symm, h.enums.symm, h.properties.symm, h.lazyTypes.symm⟩

theorem distinct (h : s.Reordered t) (hd : (s.types.map (·.name)).Nodup) :
    (t.types.map (·.name)).Nodup :=
  (h.types.map _).nodup_iff.1 hd

theorem sharedNicknamesAgree (h : s.Reordered t) (hs : s.SharedNicknamesAgree) :
    t.SharedNicknamesAgree :=
  fun u hu v hv => hs u (h.types.mem_iff.2 hu) v (h.types.mem_iff.2 hv)

theorem parentOf (h : s.Reordered t) : s.ParentOf = t.ParentOf := by
  funext parent child
  simp only [ParentOf, h.types.mem_iff]

theorem record? (h : s.Reordered t) (hd : (s.types.map (·.name)).Nodup) (name : String) :
    s.record? name = t.record? name := by
  apply Option.ext
  intro u
  rw [record?_eq_some_iff hd, record?_eq_some_iff (h.distinct hd), h.types.mem_iff]

theorem isKnown (h : s.Reordered t) (hd : (s.types.map (·.name)).Nodup) (name : String) :
    s.isKnown name = t.isKnown name := by
  rw [Snapshot.isKnown, Snapshot.isKnown, h.record? hd]

theorem climb (h : s.Reordered t) (hd : (s.types.map (·.name)).Nodup) (fuel : Nat) (name : String) :
    s.climb fuel name = t.climb fuel name := by
  induction fuel generalizing name with
  | zero => rfl
  | succ fuel ih => simp only [Snapshot.climb, parent?, h.record? hd, ih]

theorem declared (h : s.Reordered t) : s.declared.Perm t.declared :=
  (h.types.map _).filter _

theorem chain (h : s.Reordered t) (hd : (s.types.map (·.name)).Nodup) (name : String) :
    s.chain name = t.chain name := by
  have hlength : s.typeNames.length = t.typeNames.length := (h.declared.append_left _).length_eq
  rw [Snapshot.chain, Snapshot.chain, h.climb hd, hlength]

theorem kindOf (h : s.Reordered t) (hd : (s.types.map (·.name)).Nodup) (name : String) :
    s.kindOf name = t.kindOf name := by
  simp only [Snapshot.kindOf, h.chain hd]

theorem wellFormed (h : s.Reordered t) (hw : s.WellFormed) : t.WellFormed where
  distinct := h.distinct hw.distinct
  parents u hu parent hp := by
    rw [← h.isKnown hw.distinct]
    exact hw.parents u (h.types.mem_iff.2 hu) parent hp
  chains name hn := by
    rw [← h.chain hw.distinct]
    exact hw.chains name (h.declared.mem_iff.2 hn)
  arguments e he a ha := by
    rw [← h.isKnown hw.distinct]
    exact hw.arguments e (h.operations.mem_iff.2 he) a ha
  properties p hp := by
    rw [← h.isKnown hw.distinct]
    exact hw.properties p (h.properties ▸ hp)
  enums name hn := by
    rw [← h.isKnown hw.distinct]
    exact hw.enums name ((h.enums.map _).mem_iff.2 hn)
  lazyTypes name hn := by
    rw [← h.isKnown hw.distinct]
    exact hw.lazyTypes name (h.lazyTypes.mem_iff.2 hn)

theorem wellFormed_iff (h : s.Reordered t) : s.WellFormed ↔ t.WellFormed :=
  ⟨h.wellFormed, h.symm.wellFormed⟩

end Reordered

end Snapshot

namespace Registry

/-- Registries over reordered snapshots in which the same types are hidden. -/
structure Alike (r r' : Registry) : Prop where
  snapshot : r.snapshot.Reordered r'.snapshot
  hidden : ∀ name, name ∈ r.hidden ↔ name ∈ r'.hidden
  agree : r.snapshot.SharedNicknamesAgree

variable {r r' : Registry}

namespace Alike

theorem record? (h : r.Alike r') (name : String) :
    r.snapshot.record? name = r'.snapshot.record? name :=
  h.snapshot.record? r.wellFormed.distinct name

theorem isKnown (h : r.Alike r') (name : String) :
    r.snapshot.isKnown name = r'.snapshot.isKnown name :=
  h.snapshot.isKnown r.wellFormed.distinct name

theorem kindOf (h : r.Alike r') (name : String) :
    r.snapshot.kindOf name = r'.snapshot.kindOf name :=
  h.snapshot.kindOf r.wellFormed.distinct name

theorem isAbstract (h : r.Alike r') : r.isAbstract = r'.isAbstract := by
  funext name
  rw [Registry.isAbstract, Registry.isAbstract, h.record?]

theorem nickname? (h : r.Alike r') : r.nickname? = r'.nickname? := by
  funext name
  rw [Registry.nickname?, Registry.nickname?, h.record?]

theorem describe (h : r.Alike r') : r.describe = r'.describe := by
  funext name
  have hanonymous : r.isAnonymous name = r'.isAnonymous name := by
    rw [isAnonymous, isAnonymous, h.record?]
  rw [Registry.describe, Registry.describe, h.kindOf, hanonymous]

theorem descriptor (h : r.Alike r') : r.descriptor = r'.descriptor := by
  funext name
  rw [Registry.descriptor, Registry.descriptor, h.isKnown, h.describe]

theorem sees (h : r.Alike r') : r.sees = r'.sees := by
  funext name
  have hh : r.isHidden name = r'.isHidden name := by
    rw [Bool.eq_iff_iff, isHidden_iff, isHidden_iff, h.hidden]
  rw [Registry.sees, Registry.sees, h.isKnown, hh]

theorem mem_below (h : r.Alike r') {root type : String} :
    type ∈ r.below root ↔ type ∈ r'.below root := by
  have hshows : r.Shows = r'.Shows := by
    funext parent child
    rw [Shows, Shows, h.snapshot.parentOf, h.hidden]
  rw [Registry.mem_below, Registry.mem_below, Descends, Descends, hshows]

theorem sortedNames_below (h : r.Alike r') (root : String) (name? : String → Option String) :
    sortedNames ((r.below root).filterMap name?) = sortedNames ((r'.below root).filterMap name?) := by
  apply sortedNames_congr
  intro n
  simp only [List.mem_filterMap, h.mem_below]

theorem operation (h : r.Alike r') : r.operation = r'.operation := by
  funext nickname
  have habstract : (r.carrier? nickname).any r.isAbstract = (r'.carrier? nickname).any r'.isAbstract := by
    rw [Bool.eq_iff_iff, any_isAbstract_carrier?_iff h.agree,
      any_isAbstract_carrier?_iff (h.snapshot.sharedNicknamesAgree h.agree)]
    simp only [h.snapshot.types.mem_iff]
  have hargument : r.argument = r'.argument := by
    funext a
    rw [Registry.argument, Registry.argument, h.descriptor]
  simp only [Registry.operation, habstract, hargument, Table.get?_congr h.snapshot.operations]

theorem enumValues (h : r.Alike r') : r.enumValues = r'.enumValues := by
  funext type
  simp only [Registry.enumValues, h.kindOf, Table.get?_congr h.snapshot.enums]

theorem properties (h : r.Alike r') : r.properties = r'.properties := by
  have hproperty : r.property = r'.property := by
    funext p
    rw [Registry.property, Registry.property, h.descriptor]
  rw [Registry.properties, Registry.properties, h.snapshot.properties, hproperty]

theorem liveNickname? (h : r.Alike r') : r.liveNickname? = r'.liveNickname? := by
  have hlive : r.isLive = r'.isLive := by
    funext nickname
    rw [isLive, isLive, h.operation]
  funext type
  rw [Registry.liveNickname?, Registry.liveNickname?, h.nickname?, hlive]

theorem listedEnum? (h : r.Alike r') : r.listedEnum? = r'.listedEnum? := by
  funext type
  simp only [Registry.listedEnum?, h.isAbstract, h.describe]

theorem outcome_nicknames (h : r.Alike r') (c : Config) :
    (r.nicknames c).outcome = (r'.nicknames c).outcome := by
  cases hs : r.sees c.operationRoot with
  | true =>
    have hs' : r'.sees c.operationRoot = true := h.sees ▸ hs
    rw [Registry.outcome_nicknames hs, Registry.outcome_nicknames hs', h.sortedNames_below,
      h.liveNickname?]
  | false =>
    have hs' : r'.sees c.operationRoot = false := h.sees ▸ hs
    simp [Registry.nicknames, root, hs, hs', Except.bind]

theorem outcome_autodoc (h : r.Alike r') (c : Config) :
    (r.autodoc c).outcome = (r'.autodoc c).outcome := by
  have hdocumented : r.documented c = r'.documented c := by
    funext nickname
    simp only [documented, methodDoc, signature, operationOf, h.operation]
  have hproperties : r.propertyDocs c = r'.propertyDocs c := by
    rw [propertyDocs, propertyDocs, h.properties]
  simp only [autodoc, Logged.outcome_bind, h.outcome_nicknames, hdocumented, hproperties]

theorem enumFile (h : r.Alike r') (c : Config) : r.enumFile c = r'.enumFile c := by
  funext type
  simp only [Registry.enumFile, enumDoc, h.sees, h.enumValues]

theorem force (h : r.Alike r') (name : String) :
    (∃ e, r.force name = .error e ∧ r'.force name = .error e) ∨
      ∃ q q', r.force name = .ok q ∧ r'.force name = .ok q' ∧ q.Alike q' := by
  simp only [Registry.force, h.isKnown]
  split
  · refine .inr ⟨_, _, rfl, rfl, h.snapshot, ?_, h.agree⟩
    intro n
    simp only [List.mem_filter, h.hidden]
  · exact .inl ⟨_, rfl, rfl⟩

theorem forceAll (h : r.Alike r') (names : List String) :
    (r.forceAll names).2.Alike (r'.forceAll names).2 := by
  induction names generalizing r r' with
  | nil => exact h
  | cons name names ih =>
    simp only [Registry.forceAll]
    rcases h.force name with ⟨e, he, he'⟩ | ⟨q, q', hq, hq', hqq⟩
    · rw [he, he']
      exact ih h
    · rw [hq, hq']
      exact ih hqq

theorem script (h : r.Alike r') (c : Config) : r.script c = r'.script c := by
  have hforced := h.forceAll c.lazyEnumTypes
  have hnames : (enumNames c r).outcome = (enumNames c r').outcome := by
    simp only [outcome_enumNames, outcome_enumTypeNames, hforced.sees, hforced.sortedNames_below,
      hforced.listedEnum?]
  have hfile : (enumNames c r).state.enumFile c = (enumNames c r').state.enumFile c := by
    rw [state_enumNames, state_enumNames, hforced.enumFile]
  rw [Registry.script, Registry.script, h.outcome_autodoc, hnames, hfile]

end Alike

theorem alike_of_reordered {s t : Snapshot} (h : s.Reordered t) (hs : s.SharedNicknamesAgree)
    (hr : ofSnapshot s = .ok r) (hr' : ofSnapshot t = .ok r') : r.Alike r' := by
  obtain ⟨rfl, hh⟩ := ofSnapshot_eq_ok_iff.1 hr
  obtain ⟨rfl, hh'⟩ := ofSnapshot_eq_ok_iff.1 hr'
  refine ⟨h, ?_, hs⟩
  intro name
  rw [hh, hh', h.lazyTypes.mem_iff]

end Registry

namespace Emission

/-- Snapshots that differ in the order of what they record are accepted alike; and on the registries made from
them, runs end alike, hand over the same files and keep the same, with any sink. -/
theorem emitAll_of_reordered {s t : Snapshot} (h : s.Reordered t) (hs : s.SharedNicknamesAgree) :
    ((∃ r, Registry.ofSnapshot s = .ok r) ↔ ∃ r, Registry.ofSnapshot t = .ok r) ∧
      ∀ r r', Registry.ofSnapshot s = .ok r → Registry.ofSnapshot t = .ok r' →
        ∀ (σ : Type) (c : Config) (sink : Sink σ) (k : σ),
          (emitAll c sink ⟨r, k⟩).outcome = (emitAll c sink ⟨r', k⟩).outcome ∧
            handed c sink ⟨r, k⟩ = handed c sink ⟨r', k⟩ ∧
            (emitAll c sink ⟨r, k⟩).state.kept = (emitAll c sink ⟨r', k⟩).state.kept := by
  constructor
  · rw [Registry.exists_ofSnapshot_iff, Registry.exists_ofSnapshot_iff, h.wellFormed_iff]
  · intro r r' hr hr' σ c sink k
    have hscript := (Registry.alike_of_reordered h hs hr hr').script c
    obtain ⟨hkept, hend⟩ := emitAll_feeds c sink ⟨r, k⟩
    obtain ⟨hkept', hend'⟩ := emitAll_feeds c sink ⟨r', k⟩
    rw [hend, hend', handed_eq, handed_eq, hkept, hkept', hscript]
    exact ⟨rfl, rfl, rfl⟩

end Emission

/-- Two operations, and three enums of which two register late. -/
def Registry.assorted : Registry where
  snapshot :=
    { types :=
        [⟨"VipsOperation", some "GObject", some "operation", true, false⟩,
          ⟨"VipsInvert", some "VipsOperation", some "invert", false, false⟩,
          ⟨"VipsAvg", some "VipsOperation", some "avg", false, false⟩,
          ⟨"VipsAngle", some "GEnum", none, false, false⟩, ⟨"VipsSize", some "GEnum", none, false, false⟩,
          ⟨"VipsToken", some "GEnum", none, false, false⟩]
      operations := .ofList [("invert", ⟨"invert an image", false, []⟩), ("avg", ⟨"find image average", false, []⟩)]
      enums := .ofList [("VipsAngle", ["d0", "d90"]), ("VipsToken", ["get", "set"])]
      properties := []
      lazyTypes := ["VipsSize", "VipsToken"] }
  sound := by decide
  hidden := ["VipsSize", "VipsToken"]

namespace Registry

theorem outcome_nicknames_assorted : (assorted.nicknames .bare).outcome = .ok ⟨#["avg", "invert"]⟩ := by
  have hlisted : ["VipsInvert", "VipsAvg"].filterMap assorted.liveNickname? = ["invert", "avg"] := by decide
  have hsorted : sortedNames (sortedNames ["invert", "avg"] ++ Config.bare.synonyms) = ["avg", "invert"] := by decide
  rw [outcome_nicknames_of_leaves (by decide) (by decide) (by decide) (by decide) hlisted, hsorted]
  rfl

theorem autodoc_assorted : ∃ f, (assorted.autodoc .bare).outcome = .ok f := by
  obtain ⟨doc, hdoc⟩ : ∃ doc, (assorted.documented .bare "avg").outcome = .ok doc := ⟨_, rfl⟩
  obtain ⟨doc', hdoc'⟩ : ∃ doc, (assorted.documented .bare "invert").outcome = .ok doc := ⟨_, rfl⟩
  have hdocs : (assorted.propertyDocs .bare).outcome = .ok [] := rfl
  simp only [autodoc, Logged.outcome_bind, outcome_nicknames_assorted, NicknameSet.toList,
    Logged.outcome_each_cons, hdoc, hdoc', hdocs, Except.bind]
  exact ⟨_, rfl⟩

theorem enumNames_assorted : (enumNames .bare assorted).outcome = .ok ["VipsAngle", "VipsToken"] := by
  have hlisted : ["VipsAngle", "VipsToken"].filterMap (enumNames .bare assorted).state.listedEnum? =
      ["VipsAngle", "VipsToken"] := by decide
  rw [outcome_enumNames_of_leaves rfl (by decide) (by decide) (by decide) (by decide) hlisted]
  decide

theorem script_assorted : ∃ f g g', assorted.script .bare = [.ok f, .ok g, .ok g'] ∧
    f.fileName = "ImageAutodoc.php" ∧ g.fileName = "Angle.php" ∧ g'.fileName = "Token.php" := by
  obtain ⟨f, hf⟩ := autodoc_assorted
  obtain ⟨g, hg⟩ : ∃ g, (enumNames .bare assorted).state.enumFile .bare "VipsAngle" = .ok g := ⟨_, rfl⟩
  obtain ⟨g', hg'⟩ : ∃ g, (enumNames .bare assorted).state.enumFile .bare "VipsToken" = .ok g := ⟨_, rfl⟩
  refine ⟨f, g, g', ?_, fileName_of_autodoc hf, ?_, ?_⟩
  · simp only [script, hf, enumNames_assorted, List.map_cons, List.map_nil, hg, hg']
  · rw [fileName_of_enumFile hg]
    decide
  · rw [fileName_of_enumFile hg']
    decide

end Registry

def Snapshot.backwards : Snapshot where
  types := Registry.assorted.snapshot.types.reverse
  operations := ⟨Registry.assorted.snapshot.operations.entries.reverse, by decide⟩
  enums := ⟨Registry.assorted.snapshot.enums.entries.reverse, by decide⟩
  properties := []
  lazyTypes := Registry.assorted.snapshot.lazyTypes.reverse

theorem Snapshot.reordered_backwards : Registry.assorted.snapshot.Reordered .backwards :=
  ⟨(List.reverse_perm _).symm, (List.reverse_perm _).symm, (List.reverse_perm _).symm, rfl,
    (List.reverse_perm _).symm⟩

theorem emitAll_backwards : Registry.assorted.snapshot.Reordered .backwards ∧
    Registry.assorted.snapshot.SharedNicknamesAgree ∧
    Registry.ofSnapshot Registry.assorted.snapshot = .ok .assorted ∧
    ∃ r' f g g', Registry.ofSnapshot .backwards = .ok r' ∧
      [f, g, g'].map (·.fileName) = ["ImageAutodoc.php", "Angle.php", "Token.php"] ∧
      (Emission.emitAll .bare .accepting ⟨.assorted, ()⟩).outcome = .ok 3 ∧
      Emission.handed .bare .accepting ⟨.assorted, ()⟩ = [f, g, g'] ∧
      (Emission.emitAll .bare .accepting ⟨r', ()⟩).outcome = .ok 3 ∧
      Emission.handed .bare .accepting ⟨r', ()⟩ = [f, g, g'] := by
  have hfresh : Registry.ofSnapshot Registry.assorted.snapshot = .ok .assorted :=
    Registry.ofSnapshot_eq_ok_iff.2 ⟨rfl, rfl⟩
  obtain ⟨haccepted, hsame⟩ := Emission.emitAll_of_reordered Snapshot.reordered_backwards (by decide)
  obtain ⟨r', hr'⟩ := haccepted.1 ⟨_, hfresh⟩
  obtain ⟨hend, hhanded, _⟩ := hsame _ _ hfresh hr' Unit .bare .accepting ()
  obtain ⟨f, g, g', hscript, hf, hg, hg'⟩ := Registry.script_assorted
  have htakes := Sink.takes_accepting [f, g, g']
  have hend' := (Emission.emitAll_of_takes hscript htakes).1
  have hhanded' := Emission.handed_of_takes hscript htakes
  have hnames : [f, g, g'].map (·.fileName) = ["ImageAutodoc.php", "Angle.php", "Token.php"] := by
    simp only [List.map_cons, List.map_nil, hf, hg, hg']
  exact ⟨Snapshot.reordered_backwards, by decide, hfresh, r', f, g, g', hr', hnames, hend', hhanded',
    hend ▸ hend', hhanded ▸ hhanded'⟩

end Autodoc
