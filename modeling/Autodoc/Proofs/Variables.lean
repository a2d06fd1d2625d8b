import Autodoc.Proofs.Requirements

namespace Autodoc

def IsBar (c : Char) : Prop := c = '-' ∨ c = '_'

def Alike (m n : String) : Prop := List.Forall₂ (fun c d => c = d ∨ IsBar c ∧ IsBar d) m.toList n.toList

theorem eq_of_forall₂ {R : α → α → Prop} {as bs : List α} (h : List.Forall₂ R as bs)
    (hR : ∀ a ∈ as, ∀ b ∈ bs, R a b → a = b) : as = bs := by
  induction h with
  | nil => rfl
  | cons hab _ ih =>
    have htail := ih fun a ha b hb => hR a (List.mem_cons_of_mem _ ha) b (List.mem_cons_of_mem _ hb)
    rw [hR _ List.mem_cons_self _ List.mem_cons_self hab, htail]

theorem Alike.eq {m n : String} (h : Alike m n)
    (hbar : ∀ c ∈ m.toList, ∀ d ∈ n.toList, IsBar c → IsBar d → c = d) : m = n := by
  refine String.toList_inj.1 (eq_of_forall₂ h fun c hc d hd hcd => ?_)
  rcases hcd with rfl | ⟨hcBar, hdBar⟩
  · rfl
  · exact hbar c hc d hd hcBar hdBar

theorem underscore_inj_iff {c d : Char} :
    (if c = '-' then '_' else c) = (if d = '-' then '_' else d) ↔ c = d ∨ IsBar c ∧ IsBar d := by
  unfold IsBar
  grind

/-- Two names come out as one variable where they differ in dashes and underscores alone. -/
theorem variableName_eq_iff {m n : String} : variableName m = variableName n ↔ Alike m n := by
  rw [variableName, variableName, Text.underscored, Text.underscored, String.ofList_inj, ← List.forall₂_eq_eq_eq,
    List.forall₂_map_left_iff, List.forall₂_map_right_iff, Alike]
  simp only [underscore_inj_iff]

theorem variableName_eq_options_iff {n : String} : variableName n = "options" ↔ n = "options" := by
  have hself : variableName "options" = "options" := by decide
  have hplain : ∀ d ∈ "options".toList, ¬ IsBar d := by simp [IsBar]
  constructor
  · intro h
    exact (variableName_eq_iff.1 (h.trans hself.symm)).eq fun _ _ d hd _ hbar => absurd hbar (hplain d hd)
  · rintro rfl
    exact hself

/-- Two of the names come out as one variable. -/
def Mixes (names : List String) : Prop := ∃ m ∈ names, ∃ n ∈ names, m ≠ n ∧ Alike m n

theorem nodup_map_variableName_iff {names : List String} (h : names.Nodup) :
    (names.map variableName).Nodup ↔ ¬ Mixes names := by
  rw [List.nodup_map_iff_inj_on h, Mixes]
  simp only [variableName_eq_iff, not_exists, not_and]
  exact ⟨fun hinj m hm n hn hne ha => hne (hinj m hm n hn ha),
    fun hnone m hm n hn ha => by_contra fun hne => hnone m hm n hn hne ha⟩

theorem not_mixes_of_dashed {names : List String} (h : ∀ n ∈ names, '_' ∉ n.toList) : ¬ Mixes names := by
  rintro ⟨m, hm, n, hn, hne, halike⟩
  have hdash {name : String} (hname : name ∈ names) {c : Char} (hc : c ∈ name.toList) (hbar : IsBar c) : c = '-' :=
    hbar.resolve_right fun he => h name hname (he ▸ hc)
  exact hne (halike.eq fun c hc d hd hcBar hdBar => (hdash hm hc hcBar).trans (hdash hn hd hdBar).symm)

theorem Mixes.two_le_length {names : List String} (h : Mixes names) : 2 ≤ names.length := by
  obtain ⟨m, hm, n, hn, hne, _⟩ := h
  rcases names with _ | ⟨a, _ | ⟨b, rest⟩⟩
  · cases hm
  · exact absurd ((List.mem_singleton.1 hm).trans (List.mem_singleton.1 hn).symm) hne
  · simp

namespace Roles

theorem inputs_sublist (args : List Argument) : (ofArguments args).inputs.Sublist args :=
  (List.filter_sublist.trans List.eraseP_sublist).trans List.filter_sublist

theorem outputs_sublist (args : List Argument) : (ofArguments args).outputs.Sublist args :=
  (List.filter_sublist.trans List.eraseP_sublist).trans List.filter_sublist

end Roles

namespace Signature

def variableNames (s : Signature) : List String := s.params.map (·.name) ++ ["options"]

def keys (s : Signature) : List String := s.outputs.map (·.name)

def declaredParams (s : Signature) : List String :=
  List.zipWith (fun host name => host ++ " $" ++ name) (s.params.map (·.host) ++ ["array"]) s.variableNames

def declaredEntries (s : Signature) : List String :=
  List.zipWith (fun key o => " *         '" ++ key ++ "' => @type " ++ o.host ++ " " ++ o.blurb ++ "\n")
    s.keys s.outputs

theorem join_paramText (s : Signature) : String.join (s.params.map paramText) ++ "array $options = []) " =
    ", ".intercalate s.declaredParams ++ " = []) " := by
  rw [declaredParams, variableNames]
  induction s.params with
  | nil => decide
  | cons p ps ih =>
    have hne : List.zipWith (fun host name => host ++ " $" ++ name) (ps.map (·.host) ++ ["array"])
        (ps.map (·.name) ++ ["options"]) ≠ [] := by
      cases ps <;> simp
    rw [List.map_cons, String.join_cons, String.append_assoc, ih, List.map_cons, List.map_cons, List.cons_append,
      List.cons_append, List.zipWith_cons_cons, String.intercalate_cons_of_ne_nil hne, paramText]
    simp only [String.append_assoc]

theorem map_outputText (s : Signature) : s.outputs.map outputText = s.declaredEntries := by
  rw [declaredEntries, keys, List.zipWith_map_left, List.zipWith_self]
  rfl

/-- The doc lines, with the lists that declare the variables and the keys. -/
def declaration (s : Signature) : String :=
  " * @method " ++ (if s.isStatic then "static " else "") ++ returnText s.returns ++ s.name ++ "("
    ++ (", ".intercalate s.declaredParams ++ " = []) ") ++ s.summary ++ ".\n"
    ++ String.join (s.enumRefs.map enumRefText)
    ++ (if s.outputs.isEmpty then ""
      else " *     Return array with: [\n" ++ String.join s.declaredEntries ++ " *     ];\n")
    ++ " *     @throws Exception\n"

theorem render_eq_declaration (s : Signature) : s.render = s.declaration := by
  delta render outputsText declaration
  rw [← join_paramText, ← map_outputText]
  simp only [String.append_assoc, -String.reduceAppend]

variable {c : Config} {op : Operation}

theorem nodup_variableNames_iff (h : (op.arguments.map (·.name)).Nodup) : (shown c op).variableNames.Nodup ↔
    ¬ Mixes ((Roles.ofArguments op.arguments).inputs.map (·.name)) ∧
      "options" ∉ (Roles.ofArguments op.arguments).inputs.map (·.name) := by
  have hnames : ((Roles.ofArguments op.arguments).inputs.map (·.name)).Nodup :=
    h.sublist ((Roles.inputs_sublist _).map _)
  have hvariables : (shown c op).variableNames =
      ((Roles.ofArguments op.arguments).inputs.map (·.name)).map variableName ++ ["options"] := by
    rw [variableNames, shown, List.map_map, List.map_map]
    rfl
  have hoptions : "options" ∉ ((Roles.ofArguments op.arguments).inputs.map (·.name)).map variableName ↔
      "options" ∉ (Roles.ofArguments op.arguments).inputs.map (·.name) := by
    simp only [List.mem_map (f := variableName), variableName_eq_options_iff, exists_eq_right]
  rw [hvariables, List.nodup_append, nodup_map_variableName_iff hnames, ← hoptions]
  simp

/-- An output that is returned by itself has no key, so keys repeat only where several outputs come out as one. -/
theorem nodup_keys_iff (h : (op.arguments.map (·.name)).Nodup) :
    (shown c op).keys.Nodup ↔ ¬ Mixes ((Roles.ofArguments op.arguments).outputs.map (·.name)) := by
  have hnames : ((Roles.ofArguments op.arguments).outputs.map (·.name)).Nodup :=
    h.sublist ((Roles.outputs_sublist _).map _)
  rw [keys, shown]
  split
  next hshape =>
    rw [← nodup_map_variableName_iff hnames, List.map_map, List.map_map]
    rfl
  next hshape =>
    refine iff_of_true List.nodup_nil ?_
    intro hmixes
    have hmany := hmixes.two_le_length
    rw [List.length_map] at hmany
    exact hshape (Roles.returnShape_eq_aggregate_iff.2 hmany)

end Signature

namespace Registry

variable {r : Registry} {c : Config} {nickname : String} {o : OperationRecord} {s : Signature}

/-- Of an operation whose arguments have different names the variables differ exactly when no two inputs come out as
one and none is called `options`, and the keys exactly when no two outputs come out as one. Names that have dashes in
them and no underscores are kept apart. -/
theorem variables_distinct_iff (h : r.snapshot.operations.get? nickname = some o)
    (hd : (o.arguments.map (·.name)).Nodup) (hs : (r.signature c nickname).outcome = .ok s) :
    s.render = s.declaration ∧
    (s.variableNames.Nodup ↔ ¬ Mixes ((r.rolesOf o).inputs.map (·.name)) ∧
      "options" ∉ (r.rolesOf o).inputs.map (·.name)) ∧
    (s.keys.Nodup ↔ ¬ Mixes ((r.rolesOf o).outputs.map (·.name))) ∧
    ((∀ a ∈ o.arguments, '_' ∉ a.name.toList) →
      (s.variableNames.Nodup ↔ "options" ∉ (r.rolesOf o).inputs.map (·.name)) ∧ s.keys.Nodup) := by
  obtain ⟨_, _, rfl⟩ := (signature_eq_ok_iff h).1 hs
  have hnames : (r.recorded nickname o).arguments.map (·.name) = o.arguments.map (·.name) := List.map_map
  have hvariables := Signature.nodup_variableNames_iff (c := c) (hnames ▸ hd)
  have hkeys := Signature.nodup_keys_iff (c := c) (hnames ▸ hd)
  refine ⟨Signature.render_eq_declaration _, hvariables, hkeys, fun hdashed => ?_⟩
  have hapart {as : List Argument} (has : as.Sublist (r.recorded nickname o).arguments) :
      ¬ Mixes (as.map (·.name)) := by
    apply not_mixes_of_dashed
    intro name hname
    obtain ⟨a, ha, rfl⟩ := List.mem_map.1 (hnames ▸ (has.map Argument.name).subset hname)
    exact hdashed a ha
  have hinputs := hapart (Roles.inputs_sublist _)
  exact ⟨hvariables.trans (and_iff_right hinputs), hkeys.2 (hapart (Roles.outputs_sublist _))⟩

def shiftingSnapshot (o : OperationRecord) : Snapshot where
  types :=
    [⟨"VipsOperation", some "GObject", none, true, false⟩,
      ⟨"VipsShift", some "VipsOperation", some "shift", false, false⟩]
  operations := .ofList [("shift", o)]
  enums := {}
  properties := []
  lazyTypes := []

def shifting (o : OperationRecord) (sound : (shiftingSnapshot o).defect? = none) : Registry :=
  ⟨shiftingSnapshot o, sound, []⟩

theorem signature_shifting (sound : (shiftingSnapshot o).defect? = none)
    (ho : (shiftingSnapshot o).operations.get? "shift" = some o)
    (henums : ∀ a ∈ ((shifting o sound).rolesOf o).outputs ++ ((shifting o sound).rolesOf o).inputs,
      a.type.isEnum = false) :
    ((shifting o sound).signature .bare "shift").outcome =
      .ok (.shown .bare ((shifting o sound).recorded "shift" o)) := by
  have hop : ∃ op, (shifting o sound).operation "shift" = .ok op :=
    ⟨_, operation_eq_ok_iff.2 ⟨rfl, o, ho, rfl⟩⟩
  have hcomplete : ((shifting o sound).rolesOf o).Complete .bare := by
    refine ⟨fun _ _ => .inl rfl, fun _ _ => .inl rfl, fun _ _ _ => .inl rfl, fun a ha henum => ?_⟩
    rw [henums a ha] at henum
    cases henum
  exact (signature_eq_ok_iff ho).2 ⟨hop, hcomplete, rfl⟩

/-- Dashes and underscores both ways, and an input that is called like the variable after it. -/
def barredRecord : OperationRecord :=
  ⟨"shift an image", false,
    [⟨"in", 19, "VipsImage", ""⟩, ⟨"x-offset", 19, "gint", ""⟩, ⟨"x_offset", 19, "gint", ""⟩,
      ⟨"options", 19, "gchararray", ""⟩, ⟨"out-x", 35, "gint", ""⟩, ⟨"out_x", 35, "gint", ""⟩]⟩

theorem variables_barred : (barredRecord.arguments.map (·.name)).Nodup ∧
    ∃ s, ((shifting barredRecord (by decide)).signature .bare "shift").outcome = .ok s ∧
      s.variableNames = ["x_offset", "x_offset", "options", "options"] ∧ ¬ s.variableNames.Nodup ∧
      s.keys = ["out_x", "out_x"] ∧ ¬ s.keys.Nodup := by
  let op := (shifting barredRecord (by decide)).recorded "shift" barredRecord
  have hvariables : (Signature.shown .bare op).variableNames = ["x_offset", "x_offset", "options", "options"] := by
    decide
  have hkeys : (Signature.shown .bare op).keys = ["out_x", "out_x"] := by decide
  refine ⟨by decide, _, signature_shifting _ (by decide) (by decide), hvariables, ?_, hkeys, ?_⟩
  · rw [hvariables]
    decide
  · rw [hkeys]
    decide

/-- Names with dashes, and one that only starts like the variable at the end. -/
def dashedRecord : OperationRecord :=
  ⟨"shift an image", false,
    [⟨"in", 19, "VipsImage", ""⟩, ⟨"x-offset", 19, "gint", ""⟩, ⟨"options-x", 19, "gchararray", ""⟩,
      ⟨"out-x", 35, "gint", ""⟩, ⟨"out-y", 35, "gint", ""⟩]⟩

theorem variables_distinct_dashed :
    (shiftingSnapshot dashedRecord).operations.get? "shift" = some dashedRecord ∧
    (dashedRecord.arguments.map (·.name)).Nodup ∧
    ∃ s, ((shifting dashedRecord (by decide)).signature .bare "shift").outcome = .ok s ∧
      s.variableNames.Nodup ∧ s.keys.Nodup := by
  have ho : (shiftingSnapshot dashedRecord).operations.get? "shift" = some dashedRecord := by decide
  have hd : (dashedRecord.arguments.map (·.name)).Nodup := by decide
  have hs := signature_shifting (by decide) ho (by decide)
  obtain ⟨_, _, _, hdashed⟩ := variables_distinct_iff (r := shifting dashedRecord (by decide)) ho hd hs
  obtain ⟨hvariables, hkeys⟩ := hdashed (by decide)
  exact ⟨ho, hd, _, hs, hvariables.2 (by decide), hkeys⟩

end Registry

end Autodoc
