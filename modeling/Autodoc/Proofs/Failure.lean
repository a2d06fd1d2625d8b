import Autodoc.Proofs.Taking

namespace Autodoc

namespace Sink

variable {σ : Type} {sink : Sink σ} {files rest : List (Except GenerateError EmittedFile)}
  {taken : List EmittedFile} {item : Except GenerateError EmittedFile} {k k' : σ} {e : GenerateError}

def offer (sink : Sink σ) : Except GenerateError EmittedFile → Action σ GenerateError Unit
  | .error e => fun k => ⟨[], k, .error e⟩
  | .ok file => sink file

/-- All before an item of a script was taken, and the item failed to render or is refused. -/
structure StopsAt (sink : Sink σ) (files : List (Except GenerateError EmittedFile)) (start : σ)
    (taken : List EmittedFile) (item : Except GenerateError EmittedFile) (k : σ) (e : GenerateError) : Prop where
  initial : taken.map .ok ++ [item] <+: files
  takes : sink.Takes taken start k
  fails : (sink.offer item k).outcome = .error e

theorem feed_of_fails (h : (sink.offer item k).outcome = .error e) :
    sink.feed (item :: rest) k = ((sink.offer item k).state, .error e) := by
  cases item with
  | error e' =>
    cases h
    rfl
  | ok file =>
    have hf : (sink file k).outcome = .error e := h
    simp only [feed, hf, offer]

theorem handedOf_of_fails (h : (sink.offer item k).outcome = .error e) :
    sink.handedOf (item :: rest) k = item.toOption.toList := by
  cases item with
  | error e' => rfl
  | ok file =>
    have hf : (sink file k).outcome = .error e := h
    simp only [handedOf, hf, Except.toOption, Option.toList_some]

theorem StopsAt.feed (h : sink.StopsAt files k taken item k' e) :
    sink.feed files k = ((sink.offer item k').state, .error e) := by
  obtain ⟨⟨rest, rfl⟩, htakes, hfails⟩ := h
  rw [List.append_assoc, htakes.feed_append]
  exact feed_of_fails hfails

theorem StopsAt.handedOf (h : sink.StopsAt files k taken item k' e) :
    sink.handedOf files k = taken ++ item.toOption.toList := by
  obtain ⟨⟨rest, rfl⟩, htakes, hfails⟩ := h
  rw [List.append_assoc, htakes.handedOf_append]
  exact congrArg (taken ++ ·) (handedOf_of_fails hfails)

theorem StopsAt.cons {file : EmittedFile} (ho : (sink file k).outcome = .ok ())
    (h : sink.StopsAt files (sink file k).state taken item k' e) :
    sink.StopsAt (.ok file :: files) k (file :: taken) item k' e :=
  ⟨(List.prefix_cons_inj _).2 h.initial, .cons ho h.takes, h.fails⟩

/-- A script is taken as a whole, or there is an item that it stops at. -/
theorem takes_or_stops (sink : Sink σ) (files : List (Except GenerateError EmittedFile)) (k : σ) :
    (∃ all k', files = all.map .ok ∧ sink.Takes all k k') ∨
      ∃ taken item k' e, sink.StopsAt files k taken item k' e := by
  induction files generalizing k with
  | nil => exact .inl ⟨[], k, rfl, .nil k⟩
  | cons item files ih =>
    cases ho : (sink.offer item k).outcome with
    | error e => exact .inr ⟨[], item, k, e, List.prefix_append [item] files, .nil k, ho⟩
    | ok u =>
      cases item with
      | error e => cases ho
      | ok file =>
        rcases ih (sink file k).state with ⟨all, k', rfl, htakes⟩ | ⟨taken, item, k', e, hstops⟩
        · exact .inl ⟨file :: all, k', rfl, .cons ho htakes⟩
        · exact .inr ⟨file :: taken, item, k', e, hstops.cons ho⟩

theorem feed_eq_error_iff :
    (sink.feed files k).2 = .error e ↔ ∃ taken item k', sink.StopsAt files k taken item k' e := by
  constructor
  · intro h
    rcases sink.takes_or_stops files k with ⟨all, k', rfl, htakes⟩ | ⟨taken, item, k', e', hstops⟩
    · rw [Sink.takes_iff_feed.1 htakes] at h
      cases h
    · rw [hstops.feed] at h
      cases h
      exact ⟨taken, item, k', hstops⟩
  · rintro ⟨taken, item, k', hstops⟩
    rw [hstops.feed]

end Sink

theorem keepsBut_offer {dir : String} {t : FileTree} {item : Except GenerateError EmittedFile} {e : GenerateError}
    (h : ((writeSink dir).offer item t).outcome = .error e) :
    t.KeepsBut [] ((writeSink dir).offer item t).state := by
  cases item with
  | error e => exact .refl t
  | ok file =>
    rcases file.write_cases dir t with ⟨_, _, hstate⟩ | ⟨ho, _⟩
    · exact hstate ▸ t.keepsBut_makeDirectories dir
    · cases ho.symm.trans h

namespace Emission

variable {c : Config} {sink : Sink σ} {s : Emission σ}

theorem state_handOver (f : Registry → Logged GenerateError EmittedFile)
    (rest : Action (Emission σ) GenerateError α) :
    ((onRegistry (.ask f) >>= fun file => onKept (sink file) >>= fun _ => rest) s).state =
      ((onKept (sink.offer (f s.registry).outcome) >>= fun _ => rest) s).state := by
  cases hf : (f s.registry).outcome with
  | error e =>
    have hask : (onRegistry (.ask f) s).outcome = .error e := hf
    rw [Action.bind_of_error hask]
    rfl
  | ok file =>
    have hask : (onRegistry (.ask f) s).outcome = .ok file := hf
    rw [Action.bind_of_ok hask]
    rfl

theorem registry_emitEnums (names : List String) :
    (emitEnums c sink names s).state.registry = s.registry := by
  induction names generalizing s with
  | nil => rfl
  | cons name names ih =>
    rw [emitEnums, state_handOver]
    cases ho : (onKept (sink.offer (s.registry.enumFile c name)) s).outcome with
    | error e =>
      rw [Logged.outcome_ofExcept, Action.bind_of_error ho]
      rfl
    | ok u =>
      rw [Logged.outcome_ofExcept, Action.bind_of_ok ho]
      exact ih

theorem state_bind_pure (x : Action σ ε α) (b : β) (s : σ) :
    ((x >>= fun _ => pure b) s).state = (x s).state := by
  cases h : (x s).outcome with
  | error e => rw [Action.bind_of_error h]
  | ok a =>
    rw [Action.bind_of_ok h]
    rfl

/-- A run forces types once the first file is taken. -/
theorem registry_emitAll_of_ok (h : (sink.offer (s.registry.autodoc c).outcome s.kept).outcome = .ok ()) :
    (emitAll c sink s).state.registry = (enumNames c s.registry).state := by
  have hkept : (onKept (sink.offer (s.registry.autodoc c).outcome) s).outcome = .ok () := h
  rw [emitAll, state_handOver, Action.bind_of_ok hkept]
  cases hn : (onRegistry (enumNames c) (onKept (sink.offer (s.registry.autodoc c).outcome) s).state).outcome with
  | error e =>
    rw [Action.bind_of_error hn]
    rfl
  | ok names =>
    rw [Action.bind_of_ok hn]
    exact (congrArg Emission.registry (state_bind_pure _ _ _)).trans (registry_emitEnums names)

theorem registry_emitAll_of_error {e : GenerateError}
    (h : (sink.offer (s.registry.autodoc c).outcome s.kept).outcome = .error e) :
    (emitAll c sink s).state.registry = s.registry := by
  have hkept : (onKept (sink.offer (s.registry.autodoc c).outcome) s).outcome = .error e := h
  rw [emitAll, state_handOver, Action.bind_of_error hkept]
  rfl

theorem registry_of_stopsAt {taken : List EmittedFile} {item : Except GenerateError EmittedFile} {k : σ}
    {e : GenerateError} (h : sink.StopsAt (s.registry.script c) s.kept taken item k e) :
    (emitAll c sink s).state.registry =
      if taken = [] then s.registry else (enumNames c s.registry).state := by
  obtain ⟨hinitial, htakes, hfails⟩ := h
  cases htakes with
  | nil =>
    obtain ⟨rfl, _⟩ := List.cons_prefix_cons.1 hinitial
    rw [registry_emitAll_of_error hfails, if_pos rfl]
  | cons ho _ =>
    obtain ⟨hfile, _⟩ := List.cons_prefix_cons.1 hinitial
    rw [registry_emitAll_of_ok (by rw [← hfile]; exact ho), if_neg (List.cons_ne_nil _ _)]

theorem emitAll_of_stopsAt {r : Registry} {taken : List EmittedFile} {item : Except GenerateError EmittedFile}
    {k k' : σ} {e : GenerateError} (h : sink.StopsAt (r.script c) k taken item k' e) :
    (emitAll c sink ⟨r, k⟩).outcome = .error e ∧
      (emitAll c sink ⟨r, k⟩).state.kept = (sink.offer item k').state := by
  obtain ⟨hkept, hend⟩ := emitAll_feeds c sink ⟨r, k⟩
  rw [h.feed] at hkept hend
  exact ⟨hend, hkept⟩

/-- A run hands over an initial segment of its script. It succeeds exactly when all of the script is rendered and
taken, and else it stops at the first file that fails to render or is refused. No type is forced before a file is
taken, and what a writing run took before it stopped is in the tree. -/
theorem emitAll_stops (c : Config) (sink : Sink σ) (s : Emission σ) :
    (∀ names, (enumNames c s.registry).outcome = .ok names → Increasing names) ∧
    (handed c sink s).map .ok <+: s.registry.script c ∧
    (∀ n, (emitAll c sink s).outcome = .ok n ↔ n = (s.registry.script c).length ∧
      s.registry.script c = (handed c sink s).map .ok ∧
      sink.Takes (handed c sink s) s.kept (emitAll c sink s).state.kept) ∧
    (∀ e, (emitAll c sink s).outcome = .error e ↔
      ∃ taken item k, sink.StopsAt (s.registry.script c) s.kept taken item k e) ∧
    (∀ taken item k e, sink.StopsAt (s.registry.script c) s.kept taken item k e →
      handed c sink s = taken ++ item.toOption.toList ∧
      (emitAll c sink s).state.kept = (sink.offer item k).state ∧
      (emitAll c sink s).state.registry =
        if taken = [] then s.registry else (enumNames c s.registry).state) ∧
    ∀ dir t taken item k e, (writeSink dir).StopsAt (s.registry.script c) t taken item k e →
      (taken.map (·.fileName)).Nodup → (∀ f ∈ taken, '/' ∉ f.fileName.toList) →
      ∀ f ∈ taken, (emitAll c (writeSink dir) ⟨s.registry, t⟩).state.kept.read (f.path dir) =
        .ok f.contents.toUTF8 := by
  obtain ⟨hkept, hend⟩ := emitAll_feeds c sink s
  refine ⟨fun _ => Registry.increasing_of_enumNames, handed_isPrefix c sink s, ?_, ?_, ?_, ?_⟩
  · intro n
    constructor
    · intro h
      obtain ⟨hall, hn⟩ := handed_of_ok h
      exact ⟨by rw [← hall, List.length_map, hn], hall.symm, takes_of_emitAll hall.symm h⟩
    · rintro ⟨rfl, hall, htakes⟩
      rw [(emitAll_of_takes hall htakes).1, ← List.length_map, ← hall]
  · intro e
    rw [hend, ← Sink.feed_eq_error_iff]
    cases (sink.feed (s.registry.script c) s.kept).2 <;> simp [Except.map]
  · intro taken item k e h
    rw [handed_eq, hkept, h.feed]
    exact ⟨h.handedOf, rfl, registry_of_stopsAt h⟩
  · intro dir t taken item k e h hd hs f hf
    have hplain : ∀ f ∈ taken, PlainName f.fileName := by
      intro f hf
      exact Registry.plainName_of_script ((List.prefix_append _ _).trans h.initial) hf (hs f hf)
    rw [(emitAll_feeds c (writeSink dir) ⟨s.registry, t⟩).1, h.feed]
    exact (keepsBut_offer h.fails).read (hplain f hf) List.not_mem_nil
      (read_of_takes h.takes hplain hd f hf)

end Emission

theorem Registry.script_twins : ∃ f g, Registry.twins.script .bare = [.ok f, .ok g, .ok g] ∧
    f.fileName = "ImageAutodoc.php" ∧ g.fileName = "Direction.php" := by
  obtain ⟨hstate, hnames⟩ := enumNames_twins
  obtain ⟨f, hf⟩ := autodoc_twins
  obtain ⟨g, hplain, hprefixed⟩ := enumFile_twins
  refine ⟨f, g, ?_, fileName_of_autodoc hf, ?_⟩
  · simp only [script, hf, hnames, hstate, List.map_cons, List.map_nil, hplain, hprefixed]
  · rw [fileName_of_enumFile hplain]
    decide

def FileTree.blocked : FileTree := FileTree.empty.put ["Direction.php"] .directory

theorem emitAll_stops_blocked : ∃ f g k,
    (writeSink "").StopsAt (Registry.twins.script .bare) .blocked [f] (.ok g) k
      (.file "Direction.php" .isDirectory) ∧
    Emission.handed .bare (writeSink "") ⟨.twins, .blocked⟩ = [f, g] ∧
    (Emission.emitAll .bare (writeSink "") ⟨.twins, .blocked⟩).outcome =
      .error (.file "Direction.php" .isDirectory) ∧
    (Emission.emitAll .bare (writeSink "") ⟨.twins, .blocked⟩).state.kept.read "ImageAutodoc.php" =
      .ok f.contents.toUTF8 := by
  obtain ⟨f, g, hscript, hf, hg⟩ := Registry.script_twins
  have hshort : ShortName f.fileName := by
    rw [hf]
    decide
  have hshort' : ShortName g.fileName := by
    rw [hg]
    decide
  have htaken := f.write_here (t := .blocked) hshort rfl
  rw [hf, Prod.mk.injEq] at htaken
  obtain ⟨hstate, ho⟩ := htaken
  have hrefused := g.write_here (t := (f.write "" .blocked).state) hshort' (by rw [hstate]; rfl)
  rw [hg, hstate, Prod.mk.injEq] at hrefused
  have hstops : (writeSink "").StopsAt (Registry.twins.script .bare) .blocked [f] (.ok g)
      (f.write "" .blocked).state (.file "Direction.php" .isDirectory) := by
    refine ⟨⟨[.ok g], hscript.symm⟩, .cons ho (.nil _), ?_⟩
    rw [hstate]
    exact hrefused.2
  obtain ⟨_, _, _, hend, hstop, hread⟩ := Emission.emitAll_stops .bare (writeSink "") ⟨.twins, .blocked⟩
  refine ⟨f, g, _, hstops, (hstop _ _ _ _ hstops).1, (hend _).2 ⟨_, _, _, hstops⟩, ?_⟩
  have hslash : ∀ file ∈ [f], '/' ∉ file.fileName.toList := by
    intro file hfile
    exact List.mem_singleton.1 hfile ▸ hshort.noSlash
  have hthere := hread "" .blocked _ _ _ _ hstops (List.nodup_singleton _) hslash f List.mem_cons_self
  rwa [EmittedFile.path, joinPath_empty, hf] at hthere

end Autodoc
