import Mathlib.Data.List.Forall2
import Autodoc.Proofs.Taking

namespace Autodoc

section Status

variable {dir : String} {t : FileTree} {f : EmittedFile} {files : List EmittedFile}

theorem fromUTF8?_eq_some_iff {data : ByteArray} {text : String} :
    String.fromUTF8? data = some text ↔ data = text.toUTF8 := by
  constructor
  · intro h
    unfold String.fromUTF8? at h
    split at h
    · cases h
      rfl
    · cases h
  · rintro rfl
    exact dif_pos text.isValidUTF8

theorem FileTree.readText_eq_ok_iff {path text : String} :
    t.readText path = .ok text ↔ t.read path = .ok text.toUTF8 := by
  unfold readText
  cases hr : t.read path with
  | error e => simp
  | ok data =>
    rw [Except.ok.injEq, ← fromUTF8?_eq_some_iff]
    cases hd : String.fromUTF8? data <;> simp [hd]

theorem EmittedFile.status_eq_fresh_iff :
    f.status dir t = .ok .fresh ↔ t.read (f.path dir) = .ok f.contents.toUTF8 := by
  rw [← FileTree.readText_eq_ok_iff]
  unfold status
  split
  next text h => simp [h]
  next h => simp [h]
  next h => simp [h]

/-- An entry of a check says a file's status in the tree. -/
def Reports (dir : String) (t : FileTree) (f : EmittedFile) (entry : String × FileStatus) : Prop :=
  entry.1 = f.fileName ∧ f.status dir t = .ok entry.2

theorem checkSink_of_status {status : FileStatus} (h : f.status dir t = .ok status)
    (before : List (String × FileStatus)) :
    checkSink dir f ⟨t, before⟩ = ⟨[], ⟨t, before ++ [(f.fileName, status)]⟩, .ok ()⟩ := by
  simp only [checkSink, h]

theorem status_of_checkSink {k : Check} (h : (checkSink dir f k).outcome = .ok ()) :
    ∃ status, f.status dir k.tree = .ok status := by
  cases hs : f.status dir k.tree with
  | error e =>
    simp only [checkSink, hs] at h
    cases h
  | ok status => exact ⟨status, rfl⟩

theorem takes_check_iff {before : List (String × FileStatus)} {k : Check} :
    (checkSink dir).Takes files ⟨t, before⟩ k ↔
      ∃ entries, List.Forall₂ (Reports dir t) files entries ∧ k = ⟨t, before ++ entries⟩ := by
  induction files generalizing before with
  | nil =>
    constructor
    · intro h
      cases h
      exact ⟨[], .nil, by rw [List.append_nil]⟩
    · rintro ⟨entries, hentries, rfl⟩
      cases hentries
      rw [List.append_nil]
      exact .nil _
  | cons f files ih =>
    constructor
    · intro h
      cases h with
      | cons ho hs =>
        obtain ⟨status, hstatus⟩ := status_of_checkSink ho
        rw [checkSink_of_status hstatus] at hs
        obtain ⟨entries, hentries, rfl⟩ := ih.1 hs
        refine ⟨(f.fileName, status) :: entries, .cons ⟨rfl, hstatus⟩ hentries, ?_⟩
        rw [List.append_assoc, List.singleton_append]
    · rintro ⟨entries, hentries, rfl⟩
      cases hentries with
      | @cons _ entry _ entries hentry hentries =>
        obtain ⟨name, status⟩ := entry
        obtain ⟨rfl, hstatus⟩ := hentry
        have hsink := checkSink_of_status hstatus before
        refine .cons (by rw [hsink]) ?_
        rw [hsink, ih]
        exact ⟨entries, hentries, by rw [List.append_assoc, List.singleton_append]⟩

theorem takes_fresh_iff : (∃ k, (checkSink dir).Takes files ⟨t, []⟩ k ∧
      k.statuses = files.map fun f => (f.fileName, .fresh)) ↔
    ∀ f ∈ files, t.read (f.path dir) = .ok f.contents.toUTF8 := by
  have hfresh : List.Forall₂ (Reports dir t) files (files.map fun f => (f.fileName, .fresh)) ↔
      ∀ f ∈ files, t.read (f.path dir) = .ok f.contents.toUTF8 := by
    simp only [List.forall₂_map_right_iff, List.forall₂_same, Reports, EmittedFile.status_eq_fresh_iff, true_and]
  rw [← hfresh]
  constructor
  · rintro ⟨k, htakes, hk⟩
    obtain ⟨entries, hentries, rfl⟩ := takes_check_iff.1 htakes
    rw [List.nil_append] at hk
    exact hk ▸ hentries
  · intro hall
    exact ⟨_, takes_check_iff.2 ⟨_, hall, rfl⟩, List.nil_append _⟩

theorem tree_feed_check (files : List (Except GenerateError EmittedFile)) (k : Check) :
    ((checkSink dir).feed files k).1.tree = k.tree := by
  induction files generalizing k with
  | nil => rfl
  | cons item files ih =>
    cases item with
    | error e => rfl
    | ok f =>
      have hkept : (checkSink dir f k).state.tree = k.tree := by
        unfold checkSink
        split <;> rfl
      simp only [Sink.feed]
      split
      next => exact hkept
      next => exact (ih _).trans hkept

end Status

namespace Emission

variable {c : Config} {r : Registry} {n : Nat}

/-- A check of a tree goes to its end and finds each file of a run fresh. -/
def FindsFresh (c : Config) (r : Registry) (dir : String) (t : FileTree) : Prop :=
  (∃ n, (emitAll c (checkSink dir) ⟨r, ⟨t, []⟩⟩).outcome = .ok n) ∧
    (emitAll c (checkSink dir) ⟨r, ⟨t, []⟩⟩).state.kept.statuses =
      (handed c .accepting ⟨r, ()⟩).map fun f => (f.fileName, .fresh)

theorem findsFresh_iff (h : (emitAll c .accepting ⟨r, ()⟩).outcome = .ok n) (dir : String) (t : FileTree) :
    FindsFresh c r dir t ↔
      ∀ f ∈ handed c .accepting ⟨r, ()⟩, t.read (f.path dir) = .ok f.contents.toUTF8 := by
  have hscript : r.script c = (handed c .accepting ⟨r, ()⟩).map .ok := (handed_of_ok h).1.symm
  rw [← takes_fresh_iff]
  constructor
  · rintro ⟨⟨m, hm⟩, hfresh⟩
    exact ⟨_, takes_of_emitAll hscript hm, hfresh⟩
  · rintro ⟨k, htakes, hfresh⟩
    obtain ⟨ho, hk⟩ := emitAll_of_takes hscript htakes
    exact ⟨⟨_, ho⟩, by rw [hk, hfresh]⟩

/-- A check is a faithful gate. It leaves the tree alone, what a run wrote it finds fresh, and it finds all fresh
exactly where every file is there byte for byte; to write then succeeds and changes nothing. -/
theorem check_faithful (h : (emitAll c .accepting ⟨r, ()⟩).outcome = .ok n)
    (hd : ((handed c .accepting ⟨r, ()⟩).map (·.fileName)).Nodup)
    (hs : ∀ f ∈ handed c .accepting ⟨r, ()⟩, '/' ∉ f.fileName.toList) (dir : String) (t : FileTree) :
    (emitAll c (checkSink dir) ⟨r, ⟨t, []⟩⟩).state.kept.tree = t ∧
    (∀ m, (emitAll c (writeSink dir) ⟨r, t⟩).outcome = .ok m →
      FindsFresh c r dir (emitAll c (writeSink dir) ⟨r, t⟩).state.kept) ∧
    (FindsFresh c r dir t ↔
      ∀ f ∈ handed c .accepting ⟨r, ()⟩, t.read (f.path dir) = .ok f.contents.toUTF8) ∧
    (FindsFresh c r dir t → (emitAll c (writeSink dir) ⟨r, t⟩).outcome = .ok n ∧
      t.Same (emitAll c (writeSink dir) ⟨r, t⟩).state.kept) := by
  obtain ⟨hall, hn⟩ := handed_of_ok h
  have hplain : ∀ f ∈ handed c .accepting ⟨r, ()⟩, PlainName f.fileName := by
    intro f hf
    exact Registry.plainName_of_script (handed_isPrefix _ _ _) hf (hs f hf)
  refine ⟨?_, ?_, findsFresh_iff h dir t, ?_⟩
  · rw [(emitAll_feeds c (checkSink dir) _).1, tree_feed_check]
  · intro m hm
    rw [findsFresh_iff h]
    exact read_of_takes (takes_of_emitAll hall.symm hm) hplain hd
  · intro hfresh
    obtain ⟨t', htakes, hsame⟩ := takes_of_read hplain ((findsFresh_iff h dir t).1 hfresh)
    obtain ⟨ho, hk⟩ := emitAll_of_takes hall.symm htakes
    rw [ho, hk, hn]
    exact ⟨rfl, hsame⟩

end Emission

theorem Registry.exists_script_single {r : Registry} {c : Config} {type : String} {doc : EnumDoc}
    (hf : ∃ f, (r.autodoc c).outcome = .ok f) (hnames : (enumNames c r).outcome = .ok [type])
    (hdoc : (enumNames c r).state.enumDoc c type = .ok doc) : ∃ f g, r.script c = [.ok f, .ok g] ∧
      f.fileName = c.autodocClass ++ ".php" ∧ g.fileName = c.stripPrefix type ++ ".php" := by
  obtain ⟨f, hf⟩ := hf
  obtain ⟨g, hg⟩ : ∃ g, (enumNames c r).state.enumFile c type = .ok g := by
    rw [enumFile, hdoc]
    exact ⟨_, rfl⟩
  refine ⟨f, g, ?_, fileName_of_autodoc hf, fileName_of_enumFile hg⟩
  simp only [script, hf, hnames, List.map_cons, List.map_nil, hg]

/-- An enum that registers late. -/
def Registry.lateToken : Registry where
  snapshot :=
    { types :=
        [⟨"VipsOperation", some "GObject", none, true, false⟩, ⟨"VipsToken", some "GEnum", none, false, false⟩]
      operations := {}
      enums := {}
      properties := []
      lazyTypes := ["VipsToken"] }
  sound := by decide
  hidden := ["VipsToken"]

theorem Registry.enumNames_lateToken :
    (enumNames .bare .lateToken).state = { Registry.lateToken with hidden := [] } ∧
      (enumNames .bare .lateToken).outcome = .ok ["VipsToken"] := by
  have hstate : (enumNames .bare .lateToken).state = { Registry.lateToken with hidden := [] } := rfl
  have hlisted : ["VipsToken"].filterMap (enumNames .bare .lateToken).state.listedEnum? = ["VipsToken"] := by decide
  exact ⟨hstate, outcome_enumNames_of_leaves rfl (by decide) (by decide) (by decide) (by decide) hlisted⟩

theorem Registry.script_lateToken : ∃ f g, Registry.lateToken.script .bare = [.ok f, .ok g] ∧
    f.fileName = "ImageAutodoc.php" ∧ g.fileName = "Token.php" := by
  have hautodoc := autodoc_of_childless (r := lateToken) (c := .bare) (by decide) (by decide) rfl rfl
  have hdoc : (enumNames .bare lateToken).state.enumDoc .bare "VipsToken" = .ok ⟨"Token", []⟩ := rfl
  obtain ⟨f, g, hscript, hf, hg⟩ := exists_script_single hautodoc enumNames_lateToken.2 hdoc
  refine ⟨f, g, hscript, hf, ?_⟩
  rw [hg]
  decide

theorem check_faithful_lateToken : ∃ f g,
    (Emission.emitAll .bare .accepting ⟨.lateToken, ()⟩).outcome = .ok 2 ∧
    Emission.handed .bare .accepting ⟨.lateToken, ()⟩ = [f, g] ∧
    [f.fileName, g.fileName].Nodup ∧ (∀ file ∈ [f, g], '/' ∉ file.fileName.toList) ∧
    (Emission.emitAll .bare (writeSink "") ⟨.lateToken, .empty⟩).outcome = .ok 2 ∧
    Emission.FindsFresh .bare .lateToken ""
      (Emission.emitAll .bare (writeSink "") ⟨.lateToken, .empty⟩).state.kept ∧
    ¬ Emission.FindsFresh .bare .lateToken "" .empty := by
  obtain ⟨f, g, hscript, hf, hg⟩ := Registry.script_lateToken
  have hshort : ShortName f.fileName := by
    rw [hf]
    decide
  have hshort' : ShortName g.fileName := by
    rw [hg]
    decide
  have haccepted := Sink.takes_accepting [f, g]
  obtain ⟨hend, _⟩ := Emission.emitAll_of_takes hscript haccepted
  have hhanded := Emission.handed_of_takes hscript haccepted
  have hnodup : [f.fileName, g.fileName].Nodup := by
    rw [hf, hg]
    decide
  have hslash : ∀ file ∈ [f, g], '/' ∉ file.fileName.toList := by
    simp only [List.mem_cons, List.not_mem_nil, or_false]
    rintro file (rfl | rfl)
    · exact hshort.noSlash
    · exact hshort'.noSlash
  obtain ⟨_, hwritten, hfresh, _⟩ := Emission.check_faithful hend (by rw [hhanded]; exact hnodup)
    (by rw [hhanded]; exact hslash) "" .empty
  have htaken := f.write_here (t := .empty) hshort rfl
  rw [hf, Prod.mk.injEq] at htaken
  have htaken' := g.write_here (t := (f.write "" .empty).state) hshort' (by rw [htaken.1]; rfl)
  rw [hg, htaken.1, Prod.mk.injEq] at htaken'
  have htakes : (writeSink "").Takes [f, g] .empty (g.write "" (f.write "" .empty).state).state :=
    .cons htaken.2 (.cons (htaken.1 ▸ htaken'.2) (.nil _))
  obtain ⟨hend', _⟩ := Emission.emitAll_of_takes hscript htakes
  refine ⟨f, g, hend, hhanded, hnodup, hslash, hend', hwritten _ hend', ?_⟩
  rw [hfresh, hhanded]
  intro hread
  have hmissing : FileTree.empty.read (f.path "") = .error .notFound := by
    rw [EmittedFile.path, joinPath_empty, FileTree.read, FileTree.resolve_here hshort rfl]
    rfl
  rw [hread f List.mem_cons_self] at hmissing
  cases hmissing

end Autodoc
