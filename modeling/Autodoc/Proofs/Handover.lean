import Autodoc.Emission

namespace Autodoc

def Sink.feed (sink : Sink σ) : List (Except GenerateError EmittedFile) → σ → σ × Except GenerateError Unit
  | [], k => (k, .ok ())
  | .error e :: _, k => (k, .error e)
  | .ok file :: files, k =>
    match (sink file k).outcome with
    | .error e => ((sink file k).state, .error e)
    | .ok () => sink.feed files (sink file k).state

def Sink.accepting : Sink Unit := fun _ k => ⟨[], k, .ok ()⟩

def Sink.recording (sink : Sink σ) : Sink (σ × List EmittedFile) := fun file s =>
  let r := sink file s.1
  ⟨r.events, (r.state, s.2 ++ [file]), r.outcome⟩

/-- The files of a script that a sink is handed. -/
def Sink.handedOf (sink : Sink σ) : List (Except GenerateError EmittedFile) → σ → List EmittedFile
  | [], _ => []
  | .error _ :: _, _ => []
  | .ok file :: files, k =>
    match (sink file k).outcome with
    | .error _ => [file]
    | .ok () => file :: sink.handedOf files (sink file k).state

theorem Sink.feed_recording (sink : Sink σ) (files : List (Except GenerateError EmittedFile)) (k : σ)
    (before : List EmittedFile) : sink.recording.feed files (k, before) =
      (((sink.feed files k).1, before ++ sink.handedOf files k), (sink.feed files k).2) := by
  induction files generalizing k before with
  | nil => simp only [feed, handedOf, List.append_nil]
  | cons x files ih =>
    cases x with
    | error e => simp only [feed, handedOf, List.append_nil]
    | ok file =>
      cases h : (sink file k).outcome with
      | error e => simp only [feed, recording, handedOf, h]
      | ok u => simp only [feed, recording, handedOf, h, ih, List.append_assoc, List.singleton_append]

theorem Sink.handedOf_isPrefix (sink : Sink σ) (files : List (Except GenerateError EmittedFile)) (k : σ) :
    (sink.handedOf files k).map .ok <+: files := by
  induction files generalizing k with
  | nil => exact List.prefix_refl _
  | cons x files ih =>
    cases x with
    | error e => exact List.nil_prefix
    | ok file =>
      simp only [handedOf]
      cases (sink file k).outcome with
      | error e => exact List.prefix_cons_inj _ |>.2 List.nil_prefix
      | ok u => exact (List.prefix_cons_inj _).2 (ih _)

theorem Sink.handedOf_of_feed_ok (sink : Sink σ) {files : List (Except GenerateError EmittedFile)} {k : σ}
    (h : (sink.feed files k).2 = .ok ()) : (sink.handedOf files k).map .ok = files := by
  induction files generalizing k with
  | nil => rfl
  | cons x files ih =>
    cases x with
    | error e => cases h
    | ok file =>
      cases ho : (sink file k).outcome with
      | error e =>
        simp only [feed, ho] at h
        cases h
      | ok u =>
        simp only [feed, ho] at h
        simp only [handedOf, ho, List.map_cons, ih h]

namespace Registry

/-- The files that a run renders: the autodoc file, then one for each enum type or the lack of their root. -/
def script (r : Registry) (c : Config) : List (Except GenerateError EmittedFile) :=
  (r.autodoc c).outcome ::
    match (enumNames c r).outcome with
    | .error e => [.error e]
    | .ok names => names.map ((enumNames c r).state.enumFile c)

end Registry

namespace Emission

/-- A computation keeps and ends as feeding a script to the sink does; fed to its end, it returns a value. -/
def Feeds (sink : Sink σ) (x : Action (Emission σ) GenerateError α) (s : Emission σ)
    (files : List (Except GenerateError EmittedFile)) (a : α) : Prop :=
  (x s).state.kept = (sink.feed files s.kept).1 ∧ (x s).outcome = (sink.feed files s.kept).2.map fun _ => a

variable {c : Config} {sink : Sink σ} {s : Emission σ}

theorem feeds_cons {f : Registry → Logged GenerateError EmittedFile} {rest : Action (Emission σ) GenerateError α}
    {files : List (Except GenerateError EmittedFile)} {a : α}
    (h : ∀ k, Feeds sink rest ⟨s.registry, k⟩ files a) :
    Feeds sink (onRegistry (.ask f) >>= fun file => onKept (sink file) >>= fun _ => rest) s
      ((f s.registry).outcome :: files) a := by
  unfold Feeds
  cases hf : (f s.registry).outcome with
  | error e =>
    have hask : (onRegistry (.ask f) s).outcome = .error e := hf
    rw [Action.bind_of_error hask]
    exact ⟨rfl, rfl⟩
  | ok file =>
    have hask : (onRegistry (.ask f) s).outcome = .ok file := hf
    rw [Action.bind_of_ok hask]
    have hstate : (onRegistry (.ask f) s).state = s := rfl
    simp only [Sink.feed, hstate]
    cases ho : (sink file s.kept).outcome with
    | error e =>
      have hsink : (onKept (sink file) s).outcome = .error e := ho
      rw [Action.bind_of_error hsink]
      exact ⟨rfl, rfl⟩
    | ok u =>
      have hsink : (onKept (sink file) s).outcome = .ok u := ho
      rw [Action.bind_of_ok hsink]
      exact h (sink file s.kept).state

theorem feeds_pure {x : Action (Emission σ) GenerateError Unit} {files : List (Except GenerateError EmittedFile)}
    (h : Feeds sink x s files ()) (a : α) : Feeds sink (x >>= fun _ => pure a) s files a := by
  obtain ⟨hkept, hend⟩ := h
  unfold Feeds
  cases hfeed : (sink.feed files s.kept).2 with
  | error e =>
    rw [hfeed] at hend
    rw [Action.bind_of_error hend]
    exact ⟨hkept, rfl⟩
  | ok u =>
    rw [hfeed] at hend
    rw [Action.bind_of_ok hend]
    exact ⟨hkept, rfl⟩

theorem emitEnums_feeds (names : List String) :
    Feeds sink (emitEnums c sink names) s (names.map (s.registry.enumFile c)) () := by
  induction names generalizing s with
  | nil => exact ⟨rfl, rfl⟩
  | cons name names ih => exact feeds_cons fun k => ih

theorem emitAll_feeds (c : Config) (sink : Sink σ) (s : Emission σ) :
    Feeds sink (emitAll c sink) s (s.registry.script c) (s.registry.script c).length := by
  apply feeds_cons
  intro k
  cases hn : (enumNames c s.registry).outcome with
  | error e =>
    have hnames : (onRegistry (enumNames c) (⟨s.registry, k⟩ : Emission σ)).outcome = .error e := hn
    rw [Feeds, Action.bind_of_error hnames]
    exact ⟨rfl, rfl⟩
  | ok names =>
    have hnames : (onRegistry (enumNames c) (⟨s.registry, k⟩ : Emission σ)).outcome = .ok names := hn
    have hlength : (s.registry.script c).length = 1 + names.length := by
      rw [Registry.script, hn, List.length_cons, List.length_map, Nat.add_comm]
    rw [Feeds, Action.bind_of_ok hnames, hlength]
    exact feeds_pure (emitEnums_feeds names) _

/-- The files that a run hands over, in order. -/
def handed (c : Config) (sink : Sink σ) (s : Emission σ) : List EmittedFile :=
  (emitAll c sink.recording ⟨s.registry, (s.kept, [])⟩).state.kept.2

theorem handed_eq (c : Config) (sink : Sink σ) (s : Emission σ) :
    handed c sink s = sink.handedOf (s.registry.script c) s.kept := by
  rw [handed, (emitAll_feeds c sink.recording _).1, Sink.feed_recording]
  exact List.nil_append _

theorem emitAll_recording (c : Config) (sink : Sink σ) (s : Emission σ) :
    (emitAll c sink.recording ⟨s.registry, (s.kept, [])⟩).state.kept.1 =
        (emitAll c sink s).state.kept ∧
      (emitAll c sink.recording ⟨s.registry, (s.kept, [])⟩).outcome = (emitAll c sink s).outcome := by
  obtain ⟨hk, ho⟩ := emitAll_feeds c sink s
  obtain ⟨hk', ho'⟩ := emitAll_feeds c sink.recording ⟨s.registry, (s.kept, [])⟩
  rw [hk, ho, hk', ho', Sink.feed_recording]
  exact ⟨rfl, rfl⟩

theorem handed_of_ok {c : Config} {sink : Sink σ} {s : Emission σ} {n : Nat}
    (h : (emitAll c sink s).outcome = .ok n) :
    (handed c sink s).map .ok = s.registry.script c ∧ n = (handed c sink s).length := by
  rw [(emitAll_feeds c sink s).2] at h
  cases hfeed : (sink.feed (s.registry.script c) s.kept).2 with
  | error e =>
    rw [hfeed] at h
    cases h
  | ok u =>
    have hall := sink.handedOf_of_feed_ok hfeed
    have hlen := congrArg List.length hall
    rw [hfeed] at h
    cases h
    rw [handed_eq]
    exact ⟨hall, by rw [← hlen, List.length_map]⟩

theorem handed_isPrefix (c : Config) (sink : Sink σ) (s : Emission σ) :
    (handed c sink s).map .ok <+: s.registry.script c := by
  rw [handed_eq]
  exact sink.handedOf_isPrefix _ _

end Emission

end Autodoc
