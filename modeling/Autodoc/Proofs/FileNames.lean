import Mathlib.Data.List.Nodup
import Autodoc.Proofs.EnumTypes
import Autodoc.Proofs.Handover
import Autodoc.Proofs.Nicknames

namespace Autodoc

namespace Config

variable {c : Config} {m n : String}

def IsPrefixed (c : Config) (name : String) : Prop := c.libraryPrefix.toList <+: name.toList

theorem stripPrefix_of_not (h : ¬ c.IsPrefixed n) : c.stripPrefix n = n := by
  rw [stripPrefix, if_neg]
  simpa only [List.isPrefixOf_iff_prefix, IsPrefixed] using h

theorem append_stripPrefix (h : c.IsPrefixed n) : c.libraryPrefix ++ c.stripPrefix n = n := by
  have hp : c.libraryPrefix.toList.isPrefixOf n.toList = true := List.isPrefixOf_iff_prefix.2 h
  obtain ⟨rest, hrest⟩ := h
  rw [stripPrefix, if_pos hp, ← hrest, List.drop_left]
  apply String.toList_inj.1
  rw [String.toList_append, String.toList_ofList, hrest]

theorem isPrefixed_append (c : Config) (n : String) : c.IsPrefixed (c.libraryPrefix ++ n) := by
  rw [IsPrefixed, String.toList_append]
  exact List.prefix_append _ _

theorem stripPrefix_append (c : Config) (n : String) : c.stripPrefix (c.libraryPrefix ++ n) = n :=
  (String.append_right_inj _).1 (append_stripPrefix (c.isPrefixed_append n))

/-- Dropping the prefix brings two names together only where they differ by the prefix alone. -/
theorem stripPrefix_eq_iff : c.stripPrefix m = c.stripPrefix n ↔
    m = n ∨ (¬ c.IsPrefixed m ∧ n = c.libraryPrefix ++ m) ∨ (¬ c.IsPrefixed n ∧ m = c.libraryPrefix ++ n) := by
  constructor
  · intro h
    by_cases hm : c.IsPrefixed m
    · by_cases hn : c.IsPrefixed n
      · exact .inl ((append_stripPrefix hm).symm.trans (h ▸ append_stripPrefix hn))
      · rw [stripPrefix_of_not hn] at h
        exact .inr (.inr ⟨hn, h ▸ (append_stripPrefix hm).symm⟩)
    · rw [stripPrefix_of_not hm] at h
      by_cases hn : c.IsPrefixed n
      · exact .inr (.inl ⟨hm, h ▸ (append_stripPrefix hn).symm⟩)
      · exact .inl (h.trans (stripPrefix_of_not hn))
  · rintro (rfl | ⟨hm, rfl⟩ | ⟨hn, rfl⟩)
    · rfl
    · rw [stripPrefix_append, stripPrefix_of_not hm]
    · rw [stripPrefix_append, stripPrefix_of_not hn]

/-- An enum takes the name of the autodoc class, or two enums differ by the library prefix alone. -/
def Clashes (c : Config) (types : List String) : Prop :=
  (∃ type ∈ types, c.stripPrefix type = c.autodocClass) ∨
    ∃ type ∈ types, ¬ c.IsPrefixed type ∧ c.libraryPrefix ++ type ∈ types

def fileNames (c : Config) (types : List String) : List String :=
  (c.autodocClass :: types.map c.stripPrefix).map (· ++ ".php")

theorem nodup_fileNames_iff {types : List String} (h : types.Nodup) :
    (c.fileNames types).Nodup ↔ ¬ c.Clashes types := by
  have hinj : Function.Injective fun name : String => name ++ ".php" :=
    fun _ _ he => (String.append_left_inj _).1 he
  rw [fileNames, List.nodup_map_iff hinj, List.nodup_cons, List.nodup_map_iff_inj_on h, Clashes, not_or]
  refine and_congr (by simp only [List.mem_map]) ?_
  constructor
  · rintro hs ⟨type, ht, hp, ht'⟩
    have he := hs type ht _ ht' (stripPrefix_eq_iff.2 (.inr (.inl ⟨hp, rfl⟩)))
    exact hp (he ▸ c.isPrefixed_append type)
  · intro hs m hm n hn he
    rcases stripPrefix_eq_iff.1 he with he | ⟨hp, rfl⟩ | ⟨hp, rfl⟩
    · exact he
    · exact absurd ⟨m, hm, hp, hn⟩ hs
    · exact absurd ⟨n, hn, hp, hm⟩ hs

end Config

namespace Registry

variable {r : Registry} {c : Config}

theorem fileName_of_autodoc {f : EmittedFile} (h : (r.autodoc c).outcome = .ok f) :
    f.fileName = c.autodocClass ++ ".php" := by
  simp only [autodoc, Logged.outcome_bind_eq_ok_iff, Logged.outcome_pure, Except.ok.injEq] at h
  obtain ⟨_, _, _, _, _, _, rfl⟩ := h
  rfl

theorem hostName_of_enumDoc {d : EnumDoc} {type : String} (h : r.enumDoc c type = .ok d) :
    d.hostName = c.stripPrefix type := by
  unfold enumDoc at h
  split at h
  · split at h
    · cases h
    · split at h
      · cases h
      · cases h
        rfl
  · cases h

theorem fileName_of_enumFile {f : EmittedFile} {type : String} (h : r.enumFile c type = .ok f) :
    f.fileName = c.stripPrefix type ++ ".php" := by
  unfold enumFile at h
  split at h
  · cases h
  · rename_i d hd
    cases h
    rw [hostName_of_enumDoc hd]

def enumTypes (r : Registry) (c : Config) : List String :=
  match (enumNames c r).outcome with
  | .error _ => []
  | .ok names => names

theorem nodup_enumTypes : (r.enumTypes c).Nodup := by
  unfold enumTypes
  split
  · exact List.nodup_nil
  · rename_i names h
    exact (increasing_of_enumNames h).nodup

theorem map_fileName_isPrefix_enums {files : List EmittedFile} {types : List String}
    (h : files.map .ok <+: types.map (r.enumFile c)) :
    files.map (·.fileName) <+: types.map fun type => c.stripPrefix type ++ ".php" := by
  induction files generalizing types with
  | nil => exact List.nil_prefix
  | cons f files ih =>
    cases types with
    | nil => exact absurd (List.prefix_nil.1 h) (List.cons_ne_nil _ _)
    | cons type types =>
      obtain ⟨hf, hfs⟩ := List.cons_prefix_cons.1 h
      exact List.cons_prefix_cons.2 ⟨fileName_of_enumFile hf.symm, ih hfs⟩

theorem map_fileName_isPrefix {files : List EmittedFile} (h : files.map .ok <+: r.script c) :
    files.map (·.fileName) <+: c.fileNames (r.enumTypes c) := by
  cases files with
  | nil => exact List.nil_prefix
  | cons f files =>
    obtain ⟨hf, hfs⟩ := List.cons_prefix_cons.1 h
    refine List.cons_prefix_cons.2 ⟨fileName_of_autodoc hf.symm, ?_⟩
    rw [List.map_map, enumTypes]
    cases hn : (enumNames c r).outcome with
    | error e =>
      rw [hn] at hfs
      cases files with
      | nil => exact List.nil_prefix
      | cons f files => cases (List.cons_prefix_cons.1 hfs).1
    | ok names =>
      rw [hn] at hfs
      exact map_fileName_isPrefix_enums hfs

end Registry

namespace Emission

def handedTypes (c : Config) (sink : Sink σ) (s : Emission σ) : List String :=
  (s.registry.enumTypes c).take ((handed c sink s).length - 1)

theorem map_fileName_handed (c : Config) (sink : Sink σ) (s : Emission σ) :
    (handed c sink s).map (·.fileName) =
      (c.fileNames (handedTypes c sink s)).take (handed c sink s).length := by
  have h := List.prefix_iff_eq_take.1 (Registry.map_fileName_isPrefix (handed_isPrefix c sink s))
  rw [List.length_map] at h
  rw [h, handedTypes]
  cases (handed c sink s).length with
  | zero => rfl
  | succ n => simp [Config.fileNames, List.map_take, List.take_take]

/-- What a run hands over, if anything, is the autodoc file and then the file of each of these types. -/
theorem handed_cases (c : Config) (sink : Sink σ) (s : Emission σ) :
    handed c sink s = [] ∨ ∃ f files, handed c sink s = f :: files ∧ (s.registry.autodoc c).outcome = .ok f ∧
      files.map .ok = (handedTypes c sink s).map ((enumNames c s.registry).state.enumFile c) := by
  have hinitial := handed_isPrefix c sink s
  cases hh : handed c sink s with
  | nil => exact .inl rfl
  | cons f files =>
    rw [hh] at hinitial
    obtain ⟨hf, hfiles⟩ := List.cons_prefix_cons.1 hinitial
    refine .inr ⟨f, files, rfl, hf.symm, ?_⟩
    rw [handedTypes, hh, Registry.enumTypes, List.length_cons, Nat.add_sub_cancel]
    cases hn : (enumNames c s.registry).outcome with
    | error e =>
      rw [hn] at hfiles
      cases files with
      | nil => rfl
      | cons file files => cases (List.cons_prefix_cons.1 hfiles).1
    | ok names =>
      rw [hn] at hfiles
      have htaken := List.prefix_iff_eq_take.1 hfiles
      rwa [List.length_map, ← List.map_take] at htaken

theorem handedTypes_of_ok {c : Config} {sink : Sink σ} {s : Emission σ} {n : Nat}
    (h : (emitAll c sink s).outcome = .ok n) : handedTypes c sink s = s.registry.enumTypes c := by
  obtain ⟨hall, _⟩ := handed_of_ok h
  have hlen := congrArg List.length hall
  rw [List.length_map, Registry.script] at hlen
  rw [handedTypes, Registry.enumTypes]
  cases hn : (enumNames c s.registry).outcome with
  | error e => exact List.take_nil
  | ok names =>
    rw [hn] at hlen
    rw [hlen, List.length_cons, List.length_map, Nat.add_sub_cancel, List.take_length]

/-- The files that a run hands over have different names exactly when no two of their types clash; a run that
succeeds hands over a file for each of the enum types. -/
theorem nodup_handed_fileNames_iff (c : Config) (sink : Sink σ) (s : Emission σ) :
    (((handed c sink s).map (·.fileName)).Nodup ↔ ¬ c.Clashes (handedTypes c sink s)) ∧
      ∀ n, (emitAll c sink s).outcome = .ok n →
        handedTypes c sink s = s.registry.enumTypes c ∧ n = (handed c sink s).length := by
  refine ⟨?_, fun n h => ⟨handedTypes_of_ok h, (handed_of_ok h).2⟩⟩
  have htypes : (handedTypes c sink s).Nodup :=
    Registry.nodup_enumTypes.sublist (List.take_sublist _ _)
  rw [map_fileName_handed]
  cases hlen : (handed c sink s).length with
  | zero =>
    have hnil : handedTypes c sink s = [] := by rw [handedTypes, hlen, List.take_zero]
    simp [hnil, Config.Clashes]
  | succ n =>
    have hle : (c.fileNames (handedTypes c sink s)).length ≤ n + 1 := by
      simp only [Config.fileNames, handedTypes, hlen, List.length_map, List.length_cons, List.length_take,
        Nat.add_sub_cancel]
      exact Nat.succ_le_succ (Nat.min_le_left _ _)
    rw [List.take_of_length_le hle, Config.nodup_fileNames_iff htypes]

end Emission

theorem Registry.autodoc_of_childless {r : Registry} {c : Config} (hs : r.sees c.operationRoot = true)
    (hc : r.children c.operationRoot = []) (hn : c.synonyms = []) (hp : r.snapshot.properties = []) :
    ∃ f, (r.autodoc c).outcome = .ok f := by
  have hnames : (r.nicknames c).outcome = .ok ⟨#[]⟩ := by
    rw [outcome_nicknames_of_leaves hs hc (fun _ ht => absurd ht List.not_mem_nil) List.nodup_nil rfl, hn]
    rfl
  have hproperties : (r.propertyDocs c).outcome = .ok [] := by
    rw [propertyDocs, properties, hp]
    rfl
  simp only [autodoc, Logged.outcome_bind_eq_ok_iff, Logged.outcome_pure, hnames, hproperties]
  exact ⟨_, _, rfl, [], rfl, _, rfl, rfl⟩

/-- Two enums whose names differ by the library prefix alone. -/
def Registry.twins : Registry where
  snapshot :=
    { types :=
        [⟨"VipsOperation", some "GObject", none, true, false⟩, ⟨"Direction", some "GEnum", none, false, false⟩,
          ⟨"VipsDirection", some "GEnum", none, false, false⟩]
      operations := {}
      enums := {}
      properties := []
      lazyTypes := [] }
  sound := by decide
  hidden := []

/-- Nothing is documented that the walk does not find. -/
def Config.bare : Config := { Config.default with synonyms := [] }

theorem Registry.enumNames_twins : (enumNames .bare .twins).state = .twins ∧
    (enumNames .bare .twins).outcome = .ok ["Direction", "VipsDirection"] := by
  have hstate : (enumNames .bare .twins).state = .twins := rfl
  have hlisted : ["Direction", "VipsDirection"].filterMap Registry.twins.listedEnum? =
      ["Direction", "VipsDirection"] := by decide
  refine ⟨hstate, ?_⟩
  rw [outcome_enumNames_of_leaves hstate (by decide) (by decide) (by decide) (by decide) hlisted]
  decide

theorem Registry.autodoc_twins : ∃ f, (Registry.twins.autodoc .bare).outcome = .ok f :=
  autodoc_of_childless (by decide) (by decide) rfl rfl

theorem Registry.enumFile_twins : ∃ f, Registry.twins.enumFile .bare "Direction" = .ok f ∧
    Registry.twins.enumFile .bare "VipsDirection" = .ok f := by
  have hplain : Registry.twins.enumDoc .bare "Direction" = .ok ⟨"Direction", []⟩ := rfl
  have hprefixed : Registry.twins.enumDoc .bare "VipsDirection" = .ok ⟨"Direction", []⟩ := rfl
  simp only [enumFile, hplain, hprefixed]
  exact ⟨_, rfl, rfl⟩

theorem handed_fileNames_twins : Registry.ofSnapshot Registry.twins.snapshot = .ok .twins ∧
    (Emission.handed .bare .accepting ⟨.twins, ()⟩).map (·.fileName) =
      ["ImageAutodoc.php", "Direction.php", "Direction.php"] ∧
    ¬ ((Emission.handed .bare .accepting ⟨.twins, ()⟩).map (·.fileName)).Nodup := by
  obtain ⟨hstate, hnames⟩ := Registry.enumNames_twins
  obtain ⟨f, hf⟩ := Registry.autodoc_twins
  obtain ⟨g, hplain, hprefixed⟩ := Registry.enumFile_twins
  have hscript : Registry.twins.script .bare = [.ok f, .ok g, .ok g] := by
    simp only [Registry.script, hf, hnames, hstate, List.map_cons, List.map_nil, hplain, hprefixed]
  have hhanded : (Emission.handed .bare .accepting ⟨.twins, ()⟩).map (·.fileName) =
      ["ImageAutodoc.php", "Direction.php", "Direction.php"] := by
    rw [Emission.handed_eq, hscript]
    simp only [Sink.handedOf, Sink.accepting, List.map_cons, List.map_nil,
      Registry.fileName_of_autodoc hf, Registry.fileName_of_enumFile hplain]
    decide
  refine ⟨Registry.ofSnapshot_eq_ok_iff.2 ⟨rfl, rfl⟩, hhanded, ?_⟩
  rw [hhanded]
  decide

end Autodoc
