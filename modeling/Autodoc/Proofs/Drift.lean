import Autodoc.CommandLine.Run
import Autodoc.Proofs.Checking
import Autodoc.Proofs.Failure

namespace Autodoc

namespace FileTree

variable {t : FileTree} {path : String} {data : ByteArray}

def Absent (t : FileTree) (path : String) : Prop :=
  t.resolve path = .error .notFound ∨ ∃ p, t.resolve path = .ok p ∧ t.find? p = none

def HoldsFile (t : FileTree) (path : String) (data : ByteArray) : Prop :=
  ∃ p, t.resolve path = .ok p ∧ t.find? p = some (.file data)

/-- A path leads to nothing or to a regular file. -/
def Clear (t : FileTree) (path : String) : Prop := t.Absent path ∨ ∃ data, t.HoldsFile path data

theorem read_eq_notFound_iff : t.read path = .error .notFound ↔ t.Absent path := by
  unfold read Absent
  cases hr : t.resolve path with
  | error e => simp
  | ok p =>
    cases hf : t.find? p with
    | none => simp [hf]
    | some e => cases e <;> simp [hf]

theorem HoldsFile.not_absent (h : t.HoldsFile path data) : ¬ t.Absent path := by
  intro habsent
  rw [← read_eq_notFound_iff, read_eq_ok_iff.2 h] at habsent
  cases habsent

theorem HoldsFile.unique {data' : ByteArray} (h : t.HoldsFile path data) (h' : t.HoldsFile path data') :
    data' = data := by
  have hread := read_eq_ok_iff.2 h
  rw [read_eq_ok_iff.2 h'] at hread
  exact Except.ok.inj hread

theorem HoldsFile.readText_eq_error (h : t.HoldsFile path data) (hd : ¬ data.IsValidUTF8) :
    t.readText path = .error .notText := by
  have hnone : String.fromUTF8? data = none := dif_neg hd
  simp only [readText, read_eq_ok_iff.2 h, hnone]

end FileTree

theorem Sink.StopsAt.exists_file {σ : Type} {sink : Sink σ} {files taken : List EmittedFile}
    {item : Except GenerateError EmittedFile} {k k' : σ} {e : GenerateError}
    (h : sink.StopsAt (files.map .ok) k taken item k' e) :
    ∃ f after, item = .ok f ∧ files = taken ++ f :: after := by
  obtain ⟨rest, hrest⟩ := h.initial
  obtain ⟨initial, after, rfl, hinitial, _⟩ := List.map_eq_append_iff.1 hrest.symm
  obtain ⟨before, last, rfl, hbefore, hlast⟩ := List.map_eq_append_iff.1 hinitial
  obtain ⟨f, rfl, rfl⟩ := List.map_eq_singleton_iff.1 hlast
  have hsame : before = taken := List.map_injective_iff.2 (fun _ _ => Except.ok.inj) hbefore
  exact ⟨f, after, rfl, by rw [hsame, List.append_assoc, List.singleton_append]⟩

namespace EmittedFile

variable {f : EmittedFile} {dir : String} {t : FileTree} {status : FileStatus}

/-- The status says how a file compares with what is under its path. -/
structure Compares (f : EmittedFile) (dir : String) (t : FileTree) (status : FileStatus) : Prop where
  missing : status = .missing ↔ t.Absent (f.path dir)
  fresh : status = .fresh ↔ t.HoldsFile (f.path dir) f.contents.toUTF8
  stale : status = .stale ↔ ∃ data, t.HoldsFile (f.path dir) data ∧ data ≠ f.contents.toUTF8

def Readable (f : EmittedFile) (dir : String) (t : FileTree) : Prop :=
  ∀ data, t.HoldsFile (f.path dir) data → data.IsValidUTF8

theorem compares_missing (h : t.Absent (f.path dir)) : f.Compares dir t .missing where
  missing := iff_of_true rfl h
  fresh := iff_of_false (by simp) fun hfile => hfile.not_absent h
  stale := iff_of_false (by simp) fun ⟨_, hfile, _⟩ => hfile.not_absent h

theorem compares_fresh (h : t.HoldsFile (f.path dir) f.contents.toUTF8) : f.Compares dir t .fresh where
  missing := iff_of_false (by simp) h.not_absent
  fresh := iff_of_true rfl h
  stale := iff_of_false (by simp) fun ⟨_, hfile, hne⟩ => hne (h.unique hfile)

theorem compares_stale {data : ByteArray} (h : t.HoldsFile (f.path dir) data)
    (hne : data ≠ f.contents.toUTF8) : f.Compares dir t .stale where
  missing := iff_of_false (by simp) h.not_absent
  fresh := iff_of_false (by simp) fun hfile => hne (hfile.unique h)
  stale := iff_of_true rfl ⟨data, h, hne⟩

theorem readable_of_absent (h : t.Absent (f.path dir)) : f.Readable dir t :=
  fun _ hfile => absurd h hfile.not_absent

theorem readable_of_holdsFile {data : ByteArray} (h : t.HoldsFile (f.path dir) data)
    (hd : data.IsValidUTF8) : f.Readable dir t :=
  fun _ hother => h.unique hother ▸ hd

theorem status_cases (h : t.Clear (f.path dir)) :
    (∃ status, f.status dir t = .ok status ∧ f.Compares dir t status ∧ f.Readable dir t) ∨
      f.status dir t = .error (.file (f.path dir) .notText) ∧ ¬ f.Readable dir t := by
  rcases h with habsent | ⟨data, hfile⟩
  · have hread : t.readText (f.path dir) = .error .notFound := by
      simp only [FileTree.readText, FileTree.read_eq_notFound_iff.2 habsent]
    refine .inl ⟨.missing, ?_, compares_missing habsent, readable_of_absent habsent⟩
    simp only [status, hread]
  by_cases htext : data.IsValidUTF8
  · have hread : t.readText (f.path dir) = .ok (String.fromUTF8 data htext) :=
      FileTree.readText_eq_ok_iff.2 (FileTree.read_eq_ok_iff.2 hfile)
    have hreadable := readable_of_holdsFile hfile htext
    by_cases hsame : String.fromUTF8 data htext = f.contents
    · have hfresh : t.HoldsFile (f.path dir) f.contents.toUTF8 := hsame ▸ hfile
      refine .inl ⟨.fresh, ?_, compares_fresh hfresh, hreadable⟩
      simp only [status, hread, hsame, if_true]
    · have hne : data ≠ f.contents.toUTF8 := fun he => hsame (String.toByteArray_inj.1 he)
      refine .inl ⟨.stale, ?_, compares_stale hfile hne, hreadable⟩
      simp only [status, hread, hsame, if_false]
  · refine .inr ⟨?_, fun hreadable => htext (hreadable data hfile)⟩
    simp only [status, hfile.readText_eq_error htext]

end EmittedFile

/-- What a check keeps of files: the name of each and how it compares. -/
def Tells (dir : String) (t : FileTree) (files : List EmittedFile) (entries : List (String × FileStatus)) : Prop :=
  List.Forall₂ (fun f entry => entry.1 = f.fileName ∧ f.Compares dir t entry.2) files entries

section Check

variable {dir : String} {t : FileTree} {files : List EmittedFile} {entries : List (String × FileStatus)}

theorem tells_of_reports (hp : ∀ f ∈ files, t.Clear (f.path dir))
    (h : List.Forall₂ (Reports dir t) files entries) :
    Tells dir t files entries ∧ ∀ f ∈ files, f.Readable dir t := by
  induction h with
  | nil => exact ⟨.nil, fun _ hf => absurd hf List.not_mem_nil⟩
  | cons hentry _ ih =>
    obtain ⟨htells, hreadable⟩ := ih fun f hf => hp f (List.mem_cons_of_mem _ hf)
    obtain ⟨hname, hstatus⟩ := hentry
    rcases EmittedFile.status_cases (hp _ List.mem_cons_self) with ⟨_, hs, hcompares, hfile⟩ | ⟨hs, _⟩
    · cases hs.symm.trans hstatus
      exact ⟨.cons ⟨hname, hcompares⟩ htells, List.forall_mem_cons.2 ⟨hfile, hreadable⟩⟩
    · cases hs.symm.trans hstatus

theorem state_of_checkSink {f : EmittedFile} {k : Check} {e : GenerateError}
    (h : (checkSink dir f k).outcome = .error e) : (checkSink dir f k).state = k := by
  unfold checkSink at h ⊢
  split at h
  next => rfl
  next => cases h

/-- A check of files goes to its end, or it stops at the first that is there and is no text. -/
theorem tells_or_stops (hp : ∀ f ∈ files, t.Clear (f.path dir)) :
    (∃ entries, Tells dir t files entries ∧ (∀ f ∈ files, f.Readable dir t) ∧
      (checkSink dir).Takes files ⟨t, []⟩ ⟨t, entries⟩) ∨
    ∃ before f after entries, files = before ++ f :: after ∧ Tells dir t before entries ∧
      (∀ g ∈ before, g.Readable dir t) ∧ ¬ f.Readable dir t ∧ (checkSink dir).StopsAt (files.map .ok) ⟨t, []⟩
        before (.ok f) ⟨t, entries⟩ (.file (f.path dir) .notText) := by
  rcases (checkSink dir).takes_or_stops (files.map .ok) ⟨t, []⟩ with
    ⟨all, k, hall, htakes⟩ | ⟨before, item, k, e, hstops⟩
  · have hsame : files = all := List.map_injective_iff.2 (fun _ _ => Except.ok.inj) hall
    subst hsame
    obtain ⟨entries, hreports, rfl⟩ := takes_check_iff.1 htakes
    obtain ⟨htells, hreadable⟩ := tells_of_reports hp hreports
    exact .inl ⟨entries, htells, hreadable, htakes⟩
  · obtain ⟨f, after, rfl, rfl⟩ := hstops.exists_file
    obtain ⟨entries, hreports, rfl⟩ := takes_check_iff.1 hstops.takes
    obtain ⟨htells, hreadable⟩ := tells_of_reports (fun g hg => hp g (List.mem_append_left _ hg)) hreports
    have hf := hp f (List.mem_append_right _ List.mem_cons_self)
    have hfails : (checkSink dir f ⟨t, [] ++ entries⟩).outcome = .error e := hstops.fails
    rcases EmittedFile.status_cases hf with ⟨status, hs, _, _⟩ | ⟨hs, hunreadable⟩
    · rw [checkSink_of_status hs] at hfails
      cases hfails
    · simp only [checkSink, hs, Except.error.injEq] at hfails
      subst hfails
      exact .inr ⟨before, f, after, entries, rfl, htells, hreadable, hunreadable, hstops⟩

end Check

namespace CommandLine

variable {r : Registry} {c : Config} {dir : String} {n : Nat} {k : Console} {e : GenerateError}

def drift (entries : List (String × FileStatus)) : List (String × FileStatus) :=
  entries.filter fun s => s.2 ≠ .fresh

def Console.listing (k : Console) (dir : String) (entries : List (String × FileStatus)) : Console :=
  { k with diagnostics := k.diagnostics ++ String.join ((drift entries).map (driftLine dir)) }

theorem checkFiles_of_ok {entries : List (String × FileStatus)}
    (h : (Emission.emitAll c (checkSink dir) ⟨r, ⟨k.tree, []⟩⟩).outcome = .ok n)
    (hk : (Emission.emitAll c (checkSink dir) ⟨r, ⟨k.tree, []⟩⟩).state.kept.statuses = entries) :
    (checkFiles r c dir k).state = k.listing dir entries ∧
    (checkFiles r c dir k).outcome =
      if drift entries = [] then .ok () else .error (.outOfDate (drift entries).length n) := by
  have hemitted : (emitInto r c (checkSink dir) (fun k => (⟨k.tree, []⟩ : Check)) (fun k _ => k) k).outcome =
      .ok (n, (Emission.emitAll c (checkSink dir) ⟨r, ⟨k.tree, []⟩⟩).state.kept) := by
    simp only [emitInto, h, Except.map, Except.mapError]
  have hcomplained (s : String) (k : Console) : (complain s k).outcome = .ok () := rfl
  rw [checkFiles, Action.bind_of_ok hemitted]
  dsimp only
  rw [Action.bind_of_ok (hcomplained _ _), hk]
  have hlisted : entries.filter (fun s => s.2 ≠ .fresh) = drift entries := rfl
  rw [hlisted]
  simp only [List.isEmpty_iff]
  by_cases hd : drift entries = []
  · rw [if_pos hd, if_pos hd]
    exact ⟨rfl, rfl⟩
  · rw [if_neg hd, if_neg hd]
    exact ⟨rfl, rfl⟩

theorem checkFiles_of_error
    (h : (Emission.emitAll c (checkSink dir) ⟨r, ⟨k.tree, []⟩⟩).outcome = .error e) :
    (checkFiles r c dir k).state = k ∧ (checkFiles r c dir k).outcome = .error (.generate e) := by
  have hemitted : (emitInto r c (checkSink dir) (fun k => (⟨k.tree, []⟩ : Check)) (fun k _ => k) k).outcome =
      .error (.generate e) := by
    simp only [emitInto, h, Except.map, Except.mapError]
  rw [checkFiles, Action.bind_of_error hemitted]
  exact ⟨rfl, rfl⟩

end CommandLine

namespace Emission

variable {c : Config} {r : Registry} {n : Nat}

/-- A check of files that are absent or regular. Where those that are there are text it goes to its end, with how each
file compares, and the command lists every one that is not fresh. Else it stops at the first that is no text, and
the command lists nothing. -/
theorem check_lists (h : (emitAll c .accepting ⟨r, ()⟩).outcome = .ok n) (dir : String) (t : FileTree)
    (hp : ∀ f ∈ handed c .accepting ⟨r, ()⟩, t.Clear (f.path dir)) :
    (∃ entries, Tells dir t (handed c .accepting ⟨r, ()⟩) entries ∧
      (∀ f ∈ handed c .accepting ⟨r, ()⟩, f.Readable dir t) ∧
      (emitAll c (checkSink dir) ⟨r, ⟨t, []⟩⟩).outcome = .ok n ∧
      (emitAll c (checkSink dir) ⟨r, ⟨t, []⟩⟩).state.kept = ⟨t, entries⟩ ∧
      ∀ k : CommandLine.Console, k.tree = t →
        (CommandLine.checkFiles r c dir k).state = k.listing dir entries ∧
        (CommandLine.checkFiles r c dir k).outcome = if CommandLine.drift entries = [] then .ok ()
          else .error (.outOfDate (CommandLine.drift entries).length n)) ∨
    ∃ before f after entries, handed c .accepting ⟨r, ()⟩ = before ++ f :: after ∧ Tells dir t before entries ∧
      (∀ g ∈ before, g.Readable dir t) ∧ ¬ f.Readable dir t ∧
      (emitAll c (checkSink dir) ⟨r, ⟨t, []⟩⟩).outcome = .error (.file (f.path dir) .notText) ∧
      (emitAll c (checkSink dir) ⟨r, ⟨t, []⟩⟩).state.kept = ⟨t, entries⟩ ∧
      ∀ k : CommandLine.Console, k.tree = t → (CommandLine.checkFiles r c dir k).state = k ∧
        (CommandLine.checkFiles r c dir k).outcome = .error (.generate (.file (f.path dir) .notText)) := by
  have hscript : r.script c = (handed c .accepting ⟨r, ()⟩).map .ok := (handed_of_ok h).1.symm
  rcases tells_or_stops hp with ⟨entries, htells, hreadable, htakes⟩ |
    ⟨before, f, after, entries, hfiles, htells, hreadable, hunreadable, hstops⟩
  · obtain ⟨ho, hkept⟩ := emitAll_of_takes hscript htakes
    rw [← (handed_of_ok h).2] at ho
    refine .inl ⟨entries, htells, hreadable, ho, hkept, ?_⟩
    rintro k rfl
    exact CommandLine.checkFiles_of_ok ho (by rw [hkept])
  · rw [← hscript] at hstops
    obtain ⟨ho, hkept⟩ := emitAll_of_stopsAt hstops
    refine .inr ⟨before, f, after, entries, hfiles, htells, hreadable, hunreadable, ho, ?_, ?_⟩
    · rw [hkept]
      exact state_of_checkSink hstops.fails
    · rintro k rfl
      exact CommandLine.checkFiles_of_error ho

end Emission

theorem Emission.handed_lateToken : ∃ f g, (emitAll .bare .accepting ⟨.lateToken, ()⟩).outcome = .ok 2 ∧
    handed .bare .accepting ⟨.lateToken, ()⟩ = [f, g] ∧
    f.fileName = "ImageAutodoc.php" ∧ g.fileName = "Token.php" := by
  obtain ⟨f, g, hscript, hf, hg⟩ := Registry.script_lateToken
  have haccepted := Sink.takes_accepting [f, g]
  exact ⟨f, g, (emitAll_of_takes hscript haccepted).1, handed_of_takes hscript haccepted, hf, hg⟩

def FileTree.autodocOnly (data : ByteArray) : FileTree := FileTree.empty.put ["ImageAutodoc.php"] (.file data)

theorem FileTree.holdsFile_autodocOnly (data : ByteArray) :
    (autodocOnly data).HoldsFile "ImageAutodoc.php" data :=
  ⟨["ImageAutodoc.php"], resolve_here (by decide) rfl, find?_put_self (by decide) _⟩

theorem FileTree.absent_autodocOnly (data : ByteArray) : (autodocOnly data).Absent "Token.php" := by
  refine .inr ⟨["Token.php"], resolve_here (by decide) rfl, ?_⟩
  rw [autodocOnly, find?_put (by decide), if_neg (by decide)]
  rfl

theorem Emission.check_lists_lateToken : ∃ f g, handed .bare .accepting ⟨.lateToken, ()⟩ = [f, g] ∧
    ∀ k : CommandLine.Console, k.tree = .autodocOnly f.contents.toUTF8 →
      (CommandLine.checkFiles .lateToken .bare "" k).state =
        { k with diagnostics := k.diagnostics ++ " missing Token.php\n" } ∧
      (CommandLine.checkFiles .lateToken .bare "" k).outcome = .error (.outOfDate 1 2) := by
  obtain ⟨f, g, hend, hhanded, hf, hg⟩ := handed_lateToken
  have hpath : f.path "" = "ImageAutodoc.php" := by rw [EmittedFile.path, joinPath_empty, hf]
  have hpath' : g.path "" = "Token.php" := by rw [EmittedFile.path, joinPath_empty, hg]
  have hfresh := FileTree.holdsFile_autodocOnly f.contents.toUTF8
  have hmissing := FileTree.absent_autodocOnly f.contents.toUTF8
  rw [← hpath] at hfresh
  rw [← hpath'] at hmissing
  refine ⟨f, g, hhanded, fun k hk => ?_⟩
  have hthere : ∀ file ∈ [f, g], (FileTree.autodocOnly f.contents.toUTF8).Clear (file.path "") := by
    simp only [List.mem_cons, List.not_mem_nil, or_false]
    rintro file (rfl | rfl)
    · exact .inr ⟨_, hfresh⟩
    · exact .inl hmissing
  have hlists := check_lists hend "" (.autodocOnly f.contents.toUTF8) (by rw [hhanded]; exact hthere)
  rw [hhanded] at hlists
  rcases hlists with ⟨entries, htells, _, _, _, hconsole⟩ | ⟨before, file, after, _, hfiles, _, _, hunreadable, _⟩
  · obtain ⟨⟨_, s⟩, _, ⟨rfl, hs⟩, hrest, rfl⟩ := List.forall₂_cons_left_iff.1 htells
    obtain ⟨⟨_, s'⟩, _, ⟨rfl, hs'⟩, hnil, rfl⟩ := List.forall₂_cons_left_iff.1 hrest
    obtain rfl := List.forall₂_nil_left_iff.1 hnil
    obtain rfl := hs.fresh.2 hfresh
    obtain rfl := hs'.missing.2 hmissing
    obtain ⟨hstate, ho⟩ := hconsole k hk
    rw [hf, hg] at hstate ho
    have hlines : String.join ((CommandLine.drift [("ImageAutodoc.php", .fresh), ("Token.php", .missing)]).map
        (CommandLine.driftLine "")) = " missing Token.php\n" := by
      have hline : CommandLine.driftLine "" ("Token.php", .missing) = " missing Token.php\n" := by
        rw [CommandLine.driftLine, joinPath_empty]
        decide
      exact (congrArg (fun line => String.join [line]) hline).trans (by decide)
    rw [CommandLine.Console.listing, hlines] at hstate
    exact ⟨hstate, ho⟩
  · have hfile : file ∈ [f, g] := hfiles ▸ List.mem_append_right _ List.mem_cons_self
    simp only [List.mem_cons, List.not_mem_nil, or_false] at hfile
    rcases hfile with rfl | rfl
    · exact absurd (EmittedFile.readable_of_holdsFile hfresh file.contents.isValidUTF8) hunreadable
    · exact absurd (EmittedFile.readable_of_absent hmissing) hunreadable

theorem Emission.check_lists_garbled : ∃ f g,
    (emitAll .bare .accepting ⟨.lateToken, ()⟩).outcome = .ok 2 ∧
    handed .bare .accepting ⟨.lateToken, ()⟩ = [f, g] ∧
    (FileTree.autodocOnly ⟨#[0xff]⟩).HoldsFile (f.path "") ⟨#[0xff]⟩ ∧
    (FileTree.autodocOnly ⟨#[0xff]⟩).Absent (g.path "") ∧
    (emitAll .bare (checkSink "") ⟨.lateToken, ⟨.autodocOnly ⟨#[0xff]⟩, []⟩⟩).outcome =
      .error (.file "ImageAutodoc.php" .notText) ∧
    (emitAll .bare (checkSink "") ⟨.lateToken, ⟨.autodocOnly ⟨#[0xff]⟩, []⟩⟩).state.kept.statuses = [] := by
  obtain ⟨f, g, hend, hhanded, hf, hg⟩ := handed_lateToken
  have hpath : f.path "" = "ImageAutodoc.php" := by rw [EmittedFile.path, joinPath_empty, hf]
  have hpath' : g.path "" = "Token.php" := by rw [EmittedFile.path, joinPath_empty, hg]
  have hheld := FileTree.holdsFile_autodocOnly ⟨#[0xff]⟩
  have hmissing := FileTree.absent_autodocOnly ⟨#[0xff]⟩
  have hscript : Registry.lateToken.script .bare = [f, g].map .ok := by
    rw [← hhanded]
    exact (handed_of_ok hend).1.symm
  have hstatus : f.status "" (.autodocOnly ⟨#[0xff]⟩) = .error (.file "ImageAutodoc.php" .notText) := by
    rw [EmittedFile.status, hpath, hheld.readText_eq_error (by decide)]
  have hstops : (checkSink "").StopsAt (Registry.lateToken.script .bare) ⟨.autodocOnly ⟨#[0xff]⟩, []⟩ [] (.ok f)
      ⟨.autodocOnly ⟨#[0xff]⟩, []⟩ (.file "ImageAutodoc.php" .notText) := by
    refine ⟨⟨[.ok g], hscript.symm⟩, .nil _, ?_⟩
    simp only [Sink.offer, checkSink, hstatus]
  obtain ⟨ho, hkept⟩ := emitAll_of_stopsAt hstops
  refine ⟨f, g, hend, hhanded, hpath ▸ hheld, hpath' ▸ hmissing, ho, ?_⟩
  rw [hkept]
  exact congrArg Check.statuses (state_of_checkSink hstops.fails)

end Autodoc
