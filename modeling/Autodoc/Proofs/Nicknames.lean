import Autodoc.Proofs.Descent
import Autodoc.Proofs.Lookups

namespace Autodoc

/-- Types that carry the same nickname are all abstract or all concrete. -/
def Snapshot.SharedNicknamesAgree (s : Snapshot) : Prop :=
  ∀ t ∈ s.types, ∀ u ∈ s.types, t.nickname.isSome = true → t.nickname = u.nickname →
    t.isAbstract = u.isAbstract

instance (s : Snapshot) : Decidable s.SharedNicknamesAgree :=
  inferInstanceAs (Decidable (∀ t ∈ s.types, ∀ u ∈ s.types, _ → _ → _))

theorem NicknameSet.toList_inj {s t : NicknameSet} : s.toList = t.toList ↔ s = t := by
  constructor
  · intro h
    exact congrArg NicknameSet.mk (Array.toList_inj.1 h)
  · exact congrArg toList

namespace Registry

variable {r : Registry}

theorem isAbstract_of_mem {t : TypeRecord} (ht : t ∈ r.snapshot.types) :
    r.isAbstract t.name = t.isAbstract := by
  have h := (Snapshot.record?_eq_some_iff r.wellFormed.distinct).2 ⟨ht, rfl⟩
  simp only [isAbstract, h, Option.any_some]

theorem nickname?_eq_some_iff {name nickname : String} : r.nickname? name = some nickname ↔
    ∃ t ∈ r.snapshot.types, t.name = name ∧ t.nickname = some nickname := by
  simp only [nickname?, Option.bind_eq_some_iff,
    Snapshot.record?_eq_some_iff r.wellFormed.distinct, and_assoc]

theorem nickname?_of_mem {t : TypeRecord} (ht : t ∈ r.snapshot.types) : r.nickname? t.name = t.nickname := by
  rw [nickname?, (Snapshot.record?_eq_some_iff r.wellFormed.distinct).2 ⟨ht, rfl⟩, Option.bind_some]

theorem nickname?_of_carrier? {name nickname : String} (h : r.carrier? nickname = some name) :
    r.nickname? name = some nickname := by
  simpa only [decide_eq_true_eq] using List.find?_some h

theorem carrier?_of_mem {t : TypeRecord} (ht : t ∈ r.snapshot.types) {nickname : String}
    (hn : t.nickname = some nickname) : ∃ u ∈ r.snapshot.types,
      u.nickname = some nickname ∧ r.carrier? nickname = some u.name := by
  have hs : ((r.carrier? nickname).isSome) = true := by
    simp only [carrier?, List.find?_isSome, decide_eq_true_eq]
    exact ⟨t.name, Snapshot.mem_typeNames_of_mem ht, nickname?_eq_some_iff.2 ⟨t, ht, rfl, hn⟩⟩
  obtain ⟨name, hname⟩ := Option.isSome_iff_exists.1 hs
  obtain ⟨u, hu, rfl, hun⟩ := nickname?_eq_some_iff.1 (nickname?_of_carrier? hname)
  exact ⟨u, hu, hun, hname⟩

theorem exists_carrier? {type n : String} (h : r.nickname? type = some n) : ∃ other, r.carrier? n = some other := by
  obtain ⟨t, ht, _, hn⟩ := nickname?_eq_some_iff.1 h
  obtain ⟨u, _, _, hc⟩ := carrier?_of_mem ht hn
  exact ⟨u.name, hc⟩

theorem isAbstract_of_carrier? {n other : String} (hall : ∀ u ∈ r.snapshot.types, u.nickname = some n → u.isAbstract = true)
    (hc : r.carrier? n = some other) : r.isAbstract other = true := by
  obtain ⟨u, hu, rfl, hun⟩ := nickname?_eq_some_iff.1 (nickname?_of_carrier? hc)
  rw [isAbstract_of_mem hu, hall u hu hun]

theorem any_isAbstract_carrier? (hs : r.snapshot.SharedNicknamesAgree) {t : TypeRecord}
    (ht : t ∈ r.snapshot.types) {nickname : String} (hn : t.nickname = some nickname) :
    (r.carrier? nickname).any r.isAbstract = t.isAbstract := by
  obtain ⟨u, hu, hun, hc⟩ := carrier?_of_mem ht hn
  rw [hc, Option.any_some, isAbstract_of_mem hu]
  exact hs u hu t ht (by rw [hun]; rfl) (hun.trans hn.symm)

theorem any_isAbstract_carrier?_iff (hs : r.snapshot.SharedNicknamesAgree) {nickname : String} :
    (r.carrier? nickname).any r.isAbstract = true ↔
      ∃ t ∈ r.snapshot.types, t.nickname = some nickname ∧ t.isAbstract = true := by
  constructor
  · intro h
    obtain ⟨name, hc, ha⟩ := (Option.any_eq_true _ _).1 h
    obtain ⟨t, ht, rfl, htn⟩ := nickname?_eq_some_iff.1 (nickname?_of_carrier? hc)
    exact ⟨t, ht, htn, isAbstract_of_mem ht ▸ ha⟩
  · rintro ⟨t, ht, htn, ha⟩
    rw [any_isAbstract_carrier? hs ht htn, ha]

theorem operation_eq_ok_iff {nickname : String} {op : Operation} :
    r.operation nickname = .ok op ↔ (r.carrier? nickname).any r.isAbstract = false ∧
      ∃ o, r.snapshot.operations.get? nickname = some o ∧
        op = ⟨nickname, o.description, o.deprecated, o.arguments.map r.described⟩ := by
  unfold operation
  cases (r.carrier? nickname).any r.isAbstract with
  | true => simp
  | false =>
    cases ho : r.snapshot.operations.get? nickname with
    | none => simp
    | some o => simp [arguments_eq_ok ho, Except.map, eq_comm]

/-- An operation that can be had and is not deprecated. -/
def isLive (r : Registry) (nickname : String) : Bool :=
  match r.operation nickname with
  | .ok op => !op.deprecated
  | .error _ => false

theorem isLive_iff {nickname : String} : r.isLive nickname = true ↔
    ∃ op, r.operation nickname = .ok op ∧ op.deprecated = false := by
  unfold isLive
  cases r.operation nickname <;> simp

theorem isLive_iff_recorded {n : String} : r.isLive n = true ↔ (r.carrier? n).any r.isAbstract = false ∧
    ∃ o, r.snapshot.operations.get? n = some o ∧ o.deprecated = false := by
  rw [isLive_iff]
  constructor
  · rintro ⟨op, hop, hd⟩
    obtain ⟨ha, o, ho, rfl⟩ := operation_eq_ok_iff.1 hop
    exact ⟨ha, o, ho, hd⟩
  · rintro ⟨ha, o, ho, hd⟩
    exact ⟨_, operation_eq_ok_iff.2 ⟨ha, o, ho, rfl⟩, hd⟩

theorem isAbstract_of_isLive {n other : String} (h : r.isLive n = true) (hc : r.carrier? n = some other) : r.isAbstract other = false := by
  have habstract := (isLive_iff_recorded.1 h).1
  rwa [hc, Option.any_some] at habstract

def liveNickname? (r : Registry) (type : String) : Option String :=
  (r.nickname? type).filter r.isLive

theorem outcome_acceptOperation (type : String) :
    (Walk.acceptOperation r type : Logged ε _).outcome = .ok (r.liveNickname? type) := by
  unfold Walk.acceptOperation liveNickname?
  cases r.nickname? type with
  | none => rfl
  | some nickname =>
    cases h : r.operation nickname with
    | error e => simp [h, Option.filter, isLive, Except.bind]
    | ok op => cases hd : op.deprecated <;> simp [h, hd, Option.filter, isLive, Except.bind]

theorem liveNickname?_eq_some_iff {type nickname : String} :
    r.liveNickname? type = some nickname ↔
      r.nickname? type = some nickname ∧ r.isLive nickname = true :=
  Option.filter_eq_some_iff

/-- A concrete type below the root carries the nickname of a recorded operation that is not deprecated. -/
def Offers (r : Registry) (root nickname : String) : Prop :=
  (∃ t ∈ r.snapshot.types, t.nickname = some nickname ∧ t.isAbstract = false ∧
    r.Descends root t.name) ∧
  ∃ op, r.snapshot.operations.get? nickname = some op ∧ op.deprecated = false

theorem exists_liveNickname?_iff (hs : r.snapshot.SharedNicknamesAgree) {root nickname : String} :
    (∃ type ∈ r.below root, r.liveNickname? type = some nickname) ↔ r.Offers root nickname := by
  constructor
  · rintro ⟨type, hb, hl⟩
    obtain ⟨hn, hlive⟩ := liveNickname?_eq_some_iff.1 hl
    obtain ⟨op, hop, hd⟩ := isLive_iff.1 hlive
    obtain ⟨t, ht, rfl, htn⟩ := nickname?_eq_some_iff.1 hn
    obtain ⟨ha, o, ho, rfl⟩ := operation_eq_ok_iff.1 hop
    rw [any_isAbstract_carrier? hs ht htn] at ha
    exact ⟨⟨t, ht, htn, ha, mem_below.1 hb⟩, o, ho, hd⟩
  · rintro ⟨⟨t, ht, htn, ha, hdesc⟩, o, ho, hd⟩
    have hn := nickname?_eq_some_iff.2 ⟨t, ht, rfl, htn⟩
    have hop := operation_eq_ok_iff.2 ⟨(any_isAbstract_carrier? hs ht htn).trans ha, o, ho, rfl⟩
    exact ⟨t.name, mem_below.2 hdesc, liveNickname?_eq_some_iff.2 ⟨hn, isLive_iff.2 ⟨_, hop, hd⟩⟩⟩

theorem outcome_nicknames {c : Config} (hr : r.sees c.operationRoot = true) :
    (r.nicknames c).outcome = .ok ⟨((sortedNames (sortedNames
      ((r.below c.operationRoot).filterMap r.liveNickname?) ++ c.synonyms)).filter
        fun n => !c.denyList.contains n).toArray⟩ := by
  have hroot : r.root c.operationRoot = .ok c.operationRoot := if_pos hr
  have hcollect : (r.collect c.operationRoot (Walk.acceptOperation r) : Logged GenerateError _).outcome =
      .ok (sortedNames ((r.below c.operationRoot).filterMap r.liveNickname?)) :=
    outcome_collect fun type _ => outcome_acceptOperation type
  simp only [nicknames, Logged.outcome_bind, Logged.outcome_ofExcept, hroot, Except.bind, hcollect,
    Logged.outcome_pure]

theorem sees_of_nicknames {c : Config} {names : NicknameSet} (h : (r.nicknames c).outcome = .ok names) :
    r.sees c.operationRoot := by
  by_contra hs
  rw [nicknames, Logged.outcome_bind, Logged.outcome_ofExcept, Registry.root, if_neg hs] at h
  cases h

theorem outcome_nicknames_eq_error_iff {c : Config} {e : GenerateError} :
    (r.nicknames c).outcome = .error e ↔ r.sees c.operationRoot = false ∧ e = .missingRoot c.operationRoot := by
  cases hs : r.sees c.operationRoot with
  | true => simp [outcome_nicknames hs]
  | false => simp [nicknames, Registry.root, hs, Except.bind, eq_comm]

theorem increasing_of_nicknames {c : Config} {names : NicknameSet} (h : (r.nicknames c).outcome = .ok names) :
    Increasing names.toList := by
  rw [outcome_nicknames (sees_of_nicknames h)] at h
  cases h
  exact (sortedNames_increasing _).filter _

/-- A live operation that a type below the root carries the nickname of. -/
def Finds (r : Registry) (root n : String) : Prop :=
  r.isLive n = true ∧ ∃ type, r.Descends root type ∧ r.nickname? type = some n

theorem exists_liveNickname?_iff_finds {root n : String} :
    (∃ type ∈ r.below root, r.liveNickname? type = some n) ↔ r.Finds root n := by
  simp only [mem_below, liveNickname?_eq_some_iff]
  constructor
  · rintro ⟨type, hd, hn, hl⟩
    exact ⟨hl, type, hd, hn⟩
  · rintro ⟨hl, type, hd, hn⟩
    exact ⟨type, hd, hn, hl⟩

theorem mem_of_outcome_nicknames {c : Config} {names : NicknameSet} {n : String} (h : (r.nicknames c).outcome = .ok names) :
    n ∈ names.toList ↔ (r.Finds c.operationRoot n ∨ n ∈ c.synonyms) ∧ n ∉ c.denyList := by
  rw [outcome_nicknames (sees_of_nicknames h)] at h
  cases h
  simp only [NicknameSet.toList, List.mem_filter, mem_sortedNames, List.mem_append, List.mem_filterMap,
    exists_liveNickname?_iff_finds, Bool.not_eq_true', List.contains_eq_mem, decide_eq_false_iff_not]

theorem outcome_nicknames_of_leaves {c : Config} {types found : List String} (hr : r.sees c.operationRoot = true)
    (hc : r.children c.operationRoot = types) (hleaf : ∀ t ∈ types, r.children t = []) (hd : types.Nodup)
    (hf : types.filterMap r.liveNickname? = found) : (r.nicknames c).outcome =
      .ok ⟨((sortedNames (sortedNames found ++ c.synonyms)).filter fun n => !c.denyList.contains n).toArray⟩ := by
  rw [outcome_nicknames hr, below_of_leaves hc hleaf hd, hf]

/-- The documented nicknames increase, and they are those that are offered below the root and the synonyms,
less those that are denied. -/
theorem mem_nicknames_iff {c : Config} (hs : r.snapshot.SharedNicknamesAgree)
    (hr : r.sees c.operationRoot = true) :
    ∃ names, (r.nicknames c).outcome = .ok names ∧ Increasing names.toList ∧
      ∀ n, n ∈ names.toList ↔
        (r.Offers c.operationRoot n ∨ n ∈ c.synonyms) ∧ n ∉ c.denyList := by
  refine ⟨_, outcome_nicknames hr, (sortedNames_increasing _).filter _, ?_⟩
  intro n
  simp only [NicknameSet.toList, List.mem_filter, mem_sortedNames, List.mem_append,
    List.mem_filterMap, exists_liveNickname?_iff hs, Bool.not_eq_true', List.contains_eq_mem,
    decide_eq_false_iff_not]

/-- Two abstract types, a live operation, a deprecated one and one that registers late. -/
def sample : Registry where
  snapshot :=
    { types :=
        [⟨"VipsOperation", some "GObject", some "operation", true, false⟩,
          ⟨"VipsArithmetic", some "VipsOperation", some "arithmetic", true, false⟩,
          ⟨"VipsInvert", some "VipsArithmetic", some "invert", false, false⟩,
          ⟨"VipsOld", some "VipsArithmetic", some "old", false, false⟩,
          ⟨"VipsLate", some "VipsOperation", some "late", false, false⟩]
      operations :=
        .ofList [("invert", ⟨"invert an image", false, []⟩), ("old", ⟨"", true, []⟩), ("late", ⟨"", false, []⟩)]
      enums := {}
      properties := []
      lazyTypes := ["VipsLate"] }
  sound := by decide
  hidden := ["VipsLate"]

theorem mem_nicknames_sample :
    sample.snapshot.SharedNicknamesAgree ∧ sample.sees Config.default.operationRoot = true ∧
      ∃ names, (sample.nicknames .default).outcome = .ok names ∧ Increasing names.toList ∧
        ∀ n, n ∈ names.toList ↔
          (sample.Offers "VipsOperation" n ∨ n ∈ ["crop"]) ∧ n ∉ Config.default.denyList :=
  ⟨by decide, by decide, mem_nicknames_iff (by decide) (by decide)⟩

end Registry

end Autodoc
