import Autodoc.Proofs.Checking
import Autodoc.Proofs.Failure

namespace Autodoc

theorem slash_notMem_of_isIdentifier {name : String} (h : isIdentifier name) : '/' ∉ name.toList := by
  unfold isIdentifier at h
  cases hname : name.toList with
  | nil => exact List.not_mem_nil
  | cons c cs =>
    rw [hname, isIdentifierText, Bool.and_eq_true, List.all_eq_true] at h
    obtain ⟨hfirst, hrest⟩ := h
    rintro (_ | ⟨_, hmem⟩)
    · exact absurd hfirst (by decide)
    · exact absurd (hrest _ hmem) (by decide)

namespace FileTree

def placeOf (t : FileTree) (dir : String) : Except FileError Place :=
  if dir = "" then .ok t.here else t.resolve dir

theorem placeOf_of_resolve {t : FileTree} {dir name : String} {p : Place} (hn : PlainName name)
    (h : t.resolve (joinPath dir name) = .ok p) : ∃ q, t.placeOf dir = .ok q ∧ p = q ++ [name] := by
  obtain ⟨q, _, hp, hdir⟩ := resolve_joinPath hn h
  rcases hdir with rfl | hdir
  · obtain ⟨_, _, _, hfollow⟩ := resolve_eq_ok_iff.1 h
    rw [joinPath_empty, splitPath_of_noSlash hn.noSlash, start, startsWith_of_noSlash hn.noSlash] at hfollow
    exact ⟨t.here, if_pos rfl, step_plain hn (follow_singleton hfollow)⟩
  · have hne : dir ≠ "" := fun hd => (resolve_eq_ok_iff.1 hdir).2.1 hd
    exact ⟨q, (if_neg hne).trans hdir, hp⟩

end FileTree

namespace EmittedFile

variable {c : Config} {f : EmittedFile}

/-- The file declares a class of this name. -/
def Declares (c : Config) (f : EmittedFile) (name : String) : Prop :=
  ∃ title doc body, f.contents = c.classFile title doc name body

/-- The file is named for the class that it declares, whose name is an identifier. -/
def WellNamed (c : Config) (f : EmittedFile) : Prop :=
  ∃ name, isIdentifier name ∧ f.fileName = name ++ ".php" ∧ f.Declares c name

/-- Besides the directory, a write puts the file right into it, if anything. -/
def StaysIn (f : EmittedFile) (dir : String) : Prop :=
  ∀ t made, made = (t.makeDirectories dir).1 → (f.write dir t).state = made ∨
    ∃ q, made.placeOf dir = .ok q ∧
      (f.write dir t).state = made.put (q ++ [f.fileName]) (.file f.contents.toUTF8)

theorem wellNamed_iff {name : String} (hname : f.fileName = name ++ ".php") (h : f.Declares c name) :
    f.WellNamed c ↔ isIdentifier name := by
  constructor
  · rintro ⟨other, hid, hother, _⟩
    rw [hname] at hother
    exact (String.append_left_inj _).1 hother ▸ hid
  · exact fun hid => ⟨name, hid, hname, h⟩

theorem staysIn_of_plainName (hn : PlainName f.fileName) (dir : String) : f.StaysIn dir := by
  rintro t made rfl
  rcases f.write_cases dir t with ⟨_, _, hstate⟩ | ⟨_, hwrite⟩
  · exact .inl hstate
  · obtain ⟨p, hp, _, hstate⟩ := (FileTree.write_eq_ok_iff hn).1 hwrite
    obtain ⟨q, hq, rfl⟩ := FileTree.placeOf_of_resolve hn hp
    exact .inr ⟨q, hq, hstate⟩

theorem WellNamed.staysIn (h : f.WellNamed c) (dir : String) : f.StaysIn dir := by
  obtain ⟨name, hid, hname, _⟩ := h
  refine staysIn_of_plainName ?_ dir
  rw [hname]
  apply plainName_php
  rw [String.toList_append, List.mem_append, not_or]
  exact ⟨slash_notMem_of_isIdentifier hid, by decide⟩

end EmittedFile

namespace Registry

variable {r : Registry} {c : Config} {f : EmittedFile}

theorem declares_of_autodoc (h : (r.autodoc c).outcome = .ok f) : f.Declares c c.autodocClass := by
  simp only [autodoc, Logged.outcome_bind_eq_ok_iff, Logged.outcome_pure, Except.ok.injEq] at h
  obtain ⟨_, _, _, _, _, _, rfl⟩ := h
  exact ⟨_, _, _, rfl⟩

theorem declares_of_enumFile {type : String} (h : r.enumFile c type = .ok f) :
    f.Declares c (c.stripPrefix type) := by
  unfold enumFile at h
  split at h
  · cases h
  next d hd =>
    cases h
    rw [← hostName_of_enumDoc hd]
    exact ⟨_, _, _, rfl⟩

end Registry

namespace Emission

variable {c : Config}

theorem mem_handed {sink : Sink σ} {s : Emission σ} {f : EmittedFile} (h : f ∈ handed c sink s) :
    ∃ name ∈ c.autodocClass :: (handedTypes c sink s).map c.stripPrefix,
      f.fileName = name ++ ".php" ∧ f.Declares c name := by
  rcases handed_cases c sink s with hnil | ⟨first, files, hhanded, hfirst, hfiles⟩
  · rw [hnil] at h
    cases h
  · rw [hhanded] at h
    rcases List.mem_cons.1 h with rfl | hmem
    · exact ⟨_, List.mem_cons_self, Registry.fileName_of_autodoc hfirst, Registry.declares_of_autodoc hfirst⟩
    · obtain ⟨type, htype, hfile⟩ := List.mem_map.1 (hfiles ▸ List.mem_map_of_mem hmem)
      exact ⟨_, List.mem_cons_of_mem _ (List.mem_map_of_mem htype), Registry.fileName_of_enumFile hfile,
        Registry.declares_of_enumFile hfile⟩

theorem exists_handed {sink : Sink σ} {s : Emission σ} {type : String} (h : type ∈ handedTypes c sink s) :
    ∃ f ∈ handed c sink s, f.fileName = c.stripPrefix type ++ ".php" ∧ f.Declares c (c.stripPrefix type) := by
  rcases handed_cases c sink s with hnil | ⟨first, files, hhanded, _, hfiles⟩
  · rw [handedTypes, hnil] at h
    cases h
  · have hmem := List.mem_map_of_mem (f := (enumNames c s.registry).state.enumFile c) h
    rw [← hfiles] at hmem
    obtain ⟨f, hf, hfile⟩ := List.mem_map.1 hmem
    rw [hhanded]
    exact ⟨f, List.mem_cons_of_mem _ hf, Registry.fileName_of_enumFile hfile.symm,
      Registry.declares_of_enumFile hfile.symm⟩

/-- Where the autodoc class is an identifier, the files of a run are well named exactly when what the library prefix
leaves of its enum types are identifiers. Any file is named for the class that it declares, and one that is well named
is written right inside the directory. -/
theorem handed_wellNamed_iff (hclass : isIdentifier c.autodocClass) (sink : Sink σ) (s : Emission σ) :
    ((∀ f ∈ handed c sink s, f.WellNamed c) ↔
      ∀ type ∈ handedTypes c sink s, isIdentifier (c.stripPrefix type)) ∧
    (∀ f ∈ handed c sink s, ∃ name, f.fileName = name ++ ".php" ∧ f.Declares c name) ∧
    ∀ f ∈ handed c sink s, f.WellNamed c → ∀ dir, f.StaysIn dir := by
  refine ⟨⟨?_, ?_⟩, ?_, ?_⟩
  · intro h type htype
    obtain ⟨f, hf, hname, hdeclares⟩ := exists_handed htype
    exact (EmittedFile.wellNamed_iff hname hdeclares).1 (h f hf)
  · intro h f hf
    obtain ⟨name, hmem, hname, hdeclares⟩ := mem_handed hf
    apply (EmittedFile.wellNamed_iff hname hdeclares).2
    rcases List.mem_cons.1 hmem with rfl | hmem
    · exact hclass
    · obtain ⟨type, htype, rfl⟩ := List.mem_map.1 hmem
      exact h type htype
  · intro f hf
    obtain ⟨name, _, hname, hdeclares⟩ := mem_handed hf
    exact ⟨name, hname, hdeclares⟩
  · intro f _ hf
    exact hf.staysIn

end Emission

theorem handed_wellNamed_lateToken : isIdentifier Config.bare.autodocClass ∧
    (Emission.handed .bare .accepting ⟨.lateToken, ()⟩).map (·.fileName) = ["ImageAutodoc.php", "Token.php"] ∧
    (∀ f ∈ Emission.handed .bare .accepting ⟨.lateToken, ()⟩, f.WellNamed .bare) ∧
    ∀ f ∈ Emission.handed .bare .accepting ⟨.lateToken, ()⟩, f.StaysIn "out" := by
  have hclass : isIdentifier Config.bare.autodocClass := by decide
  obtain ⟨f, g, hscript, hf, hg⟩ := Registry.script_lateToken
  have htakes := Sink.takes_accepting [f, g]
  have hhanded := Emission.handed_of_takes hscript htakes
  obtain ⟨hend, _⟩ := Emission.emitAll_of_takes hscript htakes
  have htypes : Emission.handedTypes .bare .accepting ⟨.lateToken, ()⟩ = ["VipsToken"] := by
    rw [Emission.handedTypes_of_ok hend, Registry.enumTypes, Registry.enumNames_lateToken.2]
  obtain ⟨hiff, _, hstays⟩ := Emission.handed_wellNamed_iff hclass .accepting ⟨.lateToken, ()⟩
  have hnamed := hiff.2 (by rw [htypes]; decide)
  refine ⟨hclass, ?_, hnamed, fun f hf => hstays f hf (hnamed f hf) "out"⟩
  rw [hhanded, List.map_cons, List.map_cons, List.map_nil, hf, hg]

/-- An enum whose name leads out of the directory. -/
def Registry.escaping : Registry where
  snapshot :=
    { types :=
        [⟨"VipsOperation", some "GObject", none, true, false⟩, ⟨"Vips../escaped", some "GEnum", none, false, false⟩]
      operations := {}
      enums := {}
      properties := []
      lazyTypes := [] }
  sound := by decide
  hidden := []

theorem Registry.script_escaping : ∃ f g, Registry.escaping.script .bare = [.ok f, .ok g] ∧
    g.fileName = "../escaped.php" := by
  have hautodoc := autodoc_of_childless (r := escaping) (c := .bare) (by decide) (by decide) rfl rfl
  have hlisted : ["Vips../escaped"].filterMap escaping.listedEnum? = ["Vips../escaped"] := by decide
  have hstate : (enumNames .bare escaping).state = escaping := rfl
  have hnames : (enumNames .bare escaping).outcome = .ok ["Vips../escaped"] :=
    outcome_enumNames_of_leaves hstate (by decide) (by decide) (by decide) (by decide) hlisted
  have hdoc : (enumNames .bare escaping).state.enumDoc .bare "Vips../escaped" = .ok ⟨"../escaped", []⟩ := rfl
  obtain ⟨f, g, hscript, _, hg⟩ := exists_script_single hautodoc hnames hdoc
  refine ⟨f, g, hscript, ?_⟩
  rw [hg]
  decide

namespace FileTree

def housed : FileTree := FileTree.empty.put ["out"] .directory

theorem joinPath_out : joinPath "out" "../escaped.php" = "out/../escaped.php" := by
  have habsolute : "../escaped.php".startsWith "/" = false := by
    rw [String.startsWith_string_eq_false_iff]
    decide
  have hslash : "out".endsWith "/" = false := by
    rw [← Bool.not_eq_true, String.endsWith_eq_endsWith_toSlice, String.Slice.endsWith_string_iff]
    decide
  simp only [joinPath, habsolute, hslash]
  decide

theorem resolve_housed : housed.resolve "out" = .ok ["out"] := resolve_here (by decide) rfl

theorem resolve_escaped : housed.resolve "out/../escaped.php" = .ok ["escaped.php"] := by
  have hparts : splitPath "out/../escaped.php" = ["out", "..", "escaped.php"] := by decide
  have hstart : housed.start "out/../escaped.php" = [] := by
    rw [start, ite_eq_left_iff]
    exact fun _ => rfl
  rw [resolve_eq_ok_iff, hparts, hstart]
  exact ⟨by decide, by decide, by decide, by rfl⟩

theorem write_escaped (data : ByteArray) :
    housed.write (joinPath "out" "../escaped.php") data = .ok (housed.put ["escaped.php"] (.file data)) := by
  have hpath : withoutSlash "out/../escaped.php" = "out/../escaped.php" := by decide
  have hends : endsInName "out/../escaped.php" = true := by decide
  rw [joinPath_out, FileTree.write, hpath, resolve_escaped, hends]
  rfl

end FileTree

theorem EmittedFile.write_escaped {f : EmittedFile} (h : f.fileName = "../escaped.php") :
    (f.write "out" .housed).state = FileTree.housed.put ["escaped.php"] (.file f.contents.toUTF8) ∧
      (f.write "out" .housed).outcome = .ok () := by
  have heq := f.write_eq "out" .housed
  rw [FileTree.makeDirectories_of_directory FileTree.resolve_housed rfl] at heq
  simp only [path, h, FileTree.write_escaped, Prod.mk.injEq] at heq
  exact heq

theorem handed_escaping : Registry.ofSnapshot Registry.escaping.snapshot = .ok .escaping ∧
    isIdentifier Config.bare.autodocClass ∧
    ∃ f g, Emission.handed .bare .accepting ⟨.escaping, ()⟩ = [f, g] ∧ g.fileName = "../escaped.php" ∧
      ¬ g.WellNamed .bare ∧ (g.write "out" .housed).outcome = .ok () ∧ ¬ g.StaysIn "out" := by
  obtain ⟨f, g, hscript, hg⟩ := Registry.script_escaping
  have htakes := Sink.takes_accepting [f, g]
  have hhanded := Emission.handed_of_takes hscript htakes
  obtain ⟨hstate, hend⟩ := EmittedFile.write_escaped hg
  refine ⟨rfl, by decide, f, g, hhanded, hg, ?_, hend, ?_⟩
  · rintro ⟨name, hid, hname, _⟩
    have hescaped : "../escaped" = name := by
      rw [hg] at hname
      exact (String.append_left_inj ".php").1 hname
    rw [← hescaped] at hid
    revert hid
    decide
  · intro hstays
    have hmade := FileTree.makeDirectories_of_directory FileTree.resolve_housed rfl
    -- the file is at the top of the tree, where there was none, and so it is not in the directory
    have htop : (g.write "out" .housed).state.find? ["escaped.php"] = some (.file g.contents.toUTF8) := by
      rw [hstate, FileTree.find?_put_self (List.cons_ne_nil _ _)]
    rcases hstays .housed .housed (by rw [hmade]) with hsame | ⟨q, hq, hput⟩
    · rw [hsame] at htop
      cases htop
    · have hplace : q = ["out"] := by
        have hout : FileTree.housed.placeOf "out" = .ok ["out"] := FileTree.resolve_housed
        rw [hout] at hq
        cases hq
        rfl
      rw [hput, hplace, FileTree.find?_put (by simp), if_neg (by simp)] at htop
      cases htop

end Autodoc
