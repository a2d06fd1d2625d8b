import Mathlib.Data.List.Sort
import Mathlib.Data.String.Basic
import Autodoc.Proofs.EnumVisibility
import Autodoc.Proofs.Failure
import Autodoc.Proofs.RegistrationOrder

namespace Autodoc

def forceType (name : String) : Action Registry GenerateError Unit := fun r =>
  match r.force name with
  | .error e => ⟨[], r, .error (.registry e)⟩
  | .ok r => ⟨[], r, .ok ()⟩

theorem Increasing.sublist {names more : List String} (h : Increasing names) (h' : Increasing more)
    (hs : names ⊆ more) : names.Sublist more := by
  have hnodup := h.nodup
  rw [increasing_iff_pairwise] at h h'
  exact List.sublist_of_subperm_of_pairwise (List.subperm_of_subset hnodup hs) h h'

namespace Registry

variable {r : Registry}

/-- The registry where types are no longer hidden; a name that is not known changes nothing. -/
def revealed (r : Registry) (names : List String) : Registry :=
  { r with hidden := r.hidden.filter fun name => ¬ (name ∈ names ∧ r.snapshot.isKnown name) }

theorem mem_hidden_revealed {names : List String} {name : String} : name ∈ (r.revealed names).hidden ↔
    name ∈ r.hidden ∧ ¬ (name ∈ names ∧ r.snapshot.isKnown name) := by
  rw [revealed, List.mem_filter, decide_eq_true_eq]

theorem revealed_nil (r : Registry) : r.revealed [] = r := by
  simp [revealed]

theorem revealed_append (r : Registry) (names more : List String) :
    r.revealed (names ++ more) = (r.revealed names).revealed more := by
  simp only [revealed, List.filter_filter, Registry.mk.injEq, true_and]
  apply List.filter_congr
  intro name _
  by_cases hn : name ∈ names <;> by_cases hm : name ∈ more <;> simp [hn, hm]

theorem revealed_congr {names more : List String} (h : ∀ name, name ∈ names ↔ name ∈ more) :
    r.revealed names = r.revealed more := by
  simp only [revealed, h]

theorem force_eq (r : Registry) (name : String) : r.force name =
    if r.snapshot.isKnown name then .ok (r.revealed [name]) else .error (.unknownType name) := by
  unfold force
  split
  next hk =>
    simp only [revealed, Except.ok.injEq, Registry.mk.injEq, true_and]
    apply List.filter_congr
    rintro other _
    by_cases h : other = name <;> simp [h, hk]
  next => rfl

theorem revealed_unknown {name : String} (h : ¬ r.snapshot.isKnown name) : r.revealed [name] = r := by
  have hall : r.hidden.filter (fun other => ¬ (other ∈ [name] ∧ r.snapshot.isKnown other)) = r.hidden := by
    rw [List.filter_eq_self]
    rintro other _
    by_cases ho : other = name <;> simp_all
  rw [revealed, hall]

theorem state_forceType (name : String) : (forceType name r).state = r.revealed [name] := by
  unfold forceType
  rw [force_eq]
  by_cases hk : r.snapshot.isKnown name
  · rw [if_pos hk]
  · rw [if_neg hk, revealed_unknown hk]

theorem forceAll_eq (r : Registry) (names : List String) : (r.forceAll names).2 = r.revealed names := by
  induction names generalizing r with
  | nil => exact r.revealed_nil.symm
  | cons name names ih =>
    rw [← List.singleton_append, revealed_append, List.singleton_append, forceAll, force_eq]
    by_cases hk : r.snapshot.isKnown name
    · rw [if_pos hk]
      exact ih _
    · rw [if_neg hk, revealed_unknown hk]
      exact ih r

/-- What a later state of a registry keeps of an earlier one: types that are found stay found, no child and no listed
name is lost, and what is known of types, operations and properties is the same. -/
structure Grows (r r' : Registry) : Prop where
  sees : ∀ name, r.sees name → r'.sees name ∧ r'.indexOf name = r.indexOf name
  children : ∀ type, (r.children type).Sublist (r'.children type)
  recorded : ∀ type, (r'.children type).Sublist
    ((r.snapshot.types.filter (·.parent = some type)).map (·.name))
  nicknames : ∀ c names, (r.nicknames c).outcome = .ok names →
    ∃ names', (r'.nicknames c).outcome = .ok names' ∧ names.toList.Sublist names'.toList
  enumTypeNames : ∀ c names, (r.enumTypeNames c).outcome = .ok names →
    ∃ names', (r'.enumTypeNames c).outcome = .ok names' ∧ names.Sublist names'
  describe : r'.describe = r.describe
  isAbstract : r'.isAbstract = r.isAbstract
  nickname? : r'.nickname? = r.nickname?
  operation : r'.operation = r.operation
  enumValues : r'.enumValues = r.enumValues
  properties : r'.properties = r.properties

theorem hidden_revealed_subset (r : Registry) (names : List String) : (r.revealed names).hidden ⊆ r.hidden :=
  List.filter_subset_self _

theorem isHidden_of_revealed {names : List String} {name : String} (h : (r.revealed names).isHidden name) :
    r.isHidden name :=
  isHidden_iff.2 (r.hidden_revealed_subset names (isHidden_iff.1 h))

theorem sees_revealed {name : String} (h : r.sees name) (names : List String) : (r.revealed names).sees name := by
  simp only [sees, Bool.and_eq_true, Bool.not_eq_true'] at h ⊢
  exact ⟨h.1, Bool.eq_false_iff.2 fun hr => Bool.eq_false_iff.1 h.2 (isHidden_of_revealed hr)⟩

theorem Descends.revealed {root type : String} (h : r.Descends root type) (names : List String) :
    (r.revealed names).Descends root type := by
  refine Relation.TransGen.mono ?_ _ _ h
  rintro parent child ⟨hp, hv⟩
  exact ⟨hp, fun hh => hv (r.hidden_revealed_subset names hh)⟩

theorem below_revealed_subset (r : Registry) (names : List String) (root : String) :
    r.below root ⊆ (r.revealed names).below root := by
  intro type h
  exact mem_below.2 ((mem_below.1 h).revealed names)

theorem grows_revealed (r : Registry) (names : List String) : r.Grows (r.revealed names) where
  sees name h := ⟨sees_revealed h names, rfl⟩
  children type := by
    refine List.monotone_filter_right _ fun child h => ?_
    simp only [Bool.not_eq_true'] at h ⊢
    exact Bool.eq_false_iff.2 fun hr => Bool.eq_false_iff.1 h (isHidden_of_revealed hr)
  recorded type := List.filter_sublist
  nicknames c found h := by
    have hroot := sees_of_nicknames h
    rw [outcome_nicknames hroot] at h
    cases h
    refine ⟨_, outcome_nicknames (sees_revealed hroot names), ?_⟩
    refine ((sortedNames_increasing _).sublist (sortedNames_increasing _) ?_).filter _
    intro n hn
    simp only [mem_sortedNames, List.mem_append] at hn ⊢
    exact hn.imp_left fun hn => List.filterMap_subset _ (r.below_revealed_subset names _) hn
  enumTypeNames c found h := by
    rw [outcome_enumTypeNames] at h ⊢
    split at h
    next hroot =>
      cases h
      rw [if_pos (sees_revealed hroot names)]
      refine ⟨_, rfl, (sortedNames_increasing _).sublist (sortedNames_increasing _) ?_⟩
      intro n hn
      rw [mem_sortedNames] at hn ⊢
      exact List.filterMap_subset _ (r.below_revealed_subset names _) hn
    next => cases h
  describe := rfl
  isAbstract := rfl
  nickname? := rfl
  operation := rfl
  enumValues := rfl
  properties := rfl

end Registry

/-- What can be called in a session. A sink keeps its own state from one run to the next. -/
inductive Call (σ : Type) : Type → Type 1 where
  | ask {α : Type} (query : Registry → Logged GenerateError α) : Call σ α
  | force (name : String) : Call σ Unit
  | enumNames (c : Config) : Call σ (List String)
  | emitAll (c : Config) (sink : Sink σ) : Call σ Nat

namespace Call

variable {σ α : Type}

def act : Call σ α → Action (Emission σ) GenerateError α
  | ask query => Emission.onRegistry (.ask query)
  | force name => Emission.onRegistry (forceType name)
  | enumNames c => Emission.onRegistry (Autodoc.enumNames c)
  | emitAll c sink => Emission.emitAll c sink

/-- The names that a call forces. A run forces none before its first file is taken. -/
def forced : Call σ α → Emission σ → List String
  | ask _, _ => []
  | force name, _ => [name]
  | enumNames c, _ => c.lazyEnumTypes
  | emitAll c sink, s =>
    match (sink.offer (s.registry.autodoc c).outcome s.kept).outcome with
    | .error _ => []
    | .ok () => c.lazyEnumTypes

theorem registry_act (call : Call σ α) (s : Emission σ) :
    (call.act s).state.registry = s.registry.revealed (call.forced s) := by
  cases call with
  | ask query => exact s.registry.revealed_nil.symm
  | force name => exact Registry.state_forceType name
  | enumNames c => exact s.registry.forceAll_eq c.lazyEnumTypes
  | emitAll c sink =>
    simp only [act, forced]
    split
    next e h => rw [Emission.registry_emitAll_of_error h, Registry.revealed_nil]
    next h => rw [Emission.registry_emitAll_of_ok h, Registry.state_enumNames, Registry.forceAll_eq]

end Call

abbrev Session (σ : Type) := List ((α : Type) × Call σ α)

namespace Session

variable {σ : Type}

/-- What a session leaves. A call that fails does not end it. -/
def run : Session σ → Emission σ → Emission σ
  | [], s => s
  | call :: calls, s => run calls (call.2.act s).state

def forced : Session σ → Emission σ → List String
  | [], _ => []
  | call :: calls, s => call.2.forced s ++ forced calls (call.2.act s).state

theorem run_append (calls more : Session σ) (s : Emission σ) : run (calls ++ more) s = run more (run calls s) := by
  induction calls generalizing s with
  | nil => rfl
  | cons call calls ih => exact ih _

theorem forced_append (calls more : Session σ) (s : Emission σ) :
    forced (calls ++ more) s = forced calls s ++ forced more (run calls s) := by
  induction calls generalizing s with
  | nil => rfl
  | cons call calls ih => rw [List.cons_append, forced, ih, forced, run, List.append_assoc]

theorem registry_run (calls : Session σ) (s : Emission σ) :
    (run calls s).registry = s.registry.revealed (forced calls s) := by
  induction calls generalizing s with
  | nil => exact s.registry.revealed_nil.symm
  | cons call calls ih => rw [run, forced, ih, call.2.registry_act, Registry.revealed_append]

/-- Visibility only grows. What is hidden in a session on a fresh registry are the late types but for the known ones
that it has forced so far, so sessions that force the same leave the same registry; and each later state keeps what an
earlier one has shown. -/
theorem visibility_grows {snapshot : Snapshot} {r : Registry} (h : Registry.ofSnapshot snapshot = .ok r) (k : σ)
    (before after : Session σ) :
    (∀ name, name ∈ (run before ⟨r, k⟩).registry.hidden ↔
      name ∈ snapshot.lazyTypes ∧ ¬ (name ∈ forced before ⟨r, k⟩ ∧ snapshot.isKnown name)) ∧
    (∀ {τ : Type} (k' : τ) (other : Session τ),
      (∀ name, name ∈ forced before ⟨r, k⟩ ↔ name ∈ forced other ⟨r, k'⟩) →
      (run before ⟨r, k⟩).registry = (run other ⟨r, k'⟩).registry) ∧
    (run before ⟨r, k⟩).registry.Grows (run (before ++ after) ⟨r, k⟩).registry := by
  obtain ⟨rfl, hhidden⟩ := Registry.ofSnapshot_eq_ok_iff.1 h
  refine ⟨?_, ?_, ?_⟩
  · intro name
    rw [registry_run, Registry.mem_hidden_revealed, hhidden]
  · intro τ k' other hsame
    rw [registry_run, registry_run]
    exact Registry.revealed_congr hsame
  · rw [run_append, registry_run after]
    exact Registry.grows_revealed _ _

end Session

def Sink.refusing : Sink Unit := fun _ k => ⟨[], k, .error (.missingRoot "sink")⟩

theorem Call.forced_refusing (c : Config) (s : Emission Unit) : (Call.emitAll c .refusing).forced s = [] := by
  simp only [Call.forced]
  cases (s.registry.autodoc c).outcome <;> rfl

namespace Session

/-- A run that is refused at its first file, then a type that does not exist. -/
def idle : Session Unit := [⟨_, .emitAll .bare .refusing⟩, ⟨_, .force "VipsNothing"⟩]

def listing : Session Unit := [⟨_, .enumNames .bare⟩]

theorem refused_assorted : ∃ f, Emission.handed .bare .refusing ⟨.assorted, ()⟩ = [f] ∧
    f.fileName = "ImageAutodoc.php" ∧
    (Emission.emitAll .bare .refusing ⟨.assorted, ()⟩).outcome = .error (.missingRoot "sink") := by
  obtain ⟨f, g, g', hscript, hf, _⟩ := Registry.script_assorted
  have hstops : Sink.refusing.StopsAt (Registry.assorted.script .bare) () [] (.ok f) () (.missingRoot "sink") :=
    ⟨⟨[.ok g, .ok g'], hscript.symm⟩, .nil (), rfl⟩
  refine ⟨f, ?_, hf, (Emission.emitAll_of_stopsAt hstops).1⟩
  rw [Emission.handed_eq, hstops.handedOf]
  rfl

theorem visibility_grows_assorted :
    Registry.ofSnapshot Registry.assorted.snapshot = .ok .assorted ∧
    (∃ f, Emission.handed .bare .refusing ⟨.assorted, ()⟩ = [f] ∧ f.fileName = "ImageAutodoc.php" ∧
      (Emission.emitAll .bare .refusing ⟨.assorted, ()⟩).outcome = .error (.missingRoot "sink")) ∧
    "VipsToken" ∈ (run idle ⟨.assorted, ()⟩).registry.hidden ∧
    "VipsToken" ∉ (run (idle ++ listing) ⟨.assorted, ()⟩).registry.hidden ∧
    "VipsSize" ∈ (run (idle ++ listing) ⟨.assorted, ()⟩).registry.hidden ∧
    (run idle ⟨.assorted, ()⟩).registry.Grows (run (idle ++ listing) ⟨.assorted, ()⟩).registry ∧
    (∀ name, name ∈ forced (idle ++ listing) ⟨.assorted, ()⟩ ↔ name ∈ forced (listing ++ idle) ⟨.assorted, ()⟩) ∧
    (run (idle ++ listing) ⟨.assorted, ()⟩).registry = (run (listing ++ idle) ⟨.assorted, ()⟩).registry := by
  have hfresh : Registry.ofSnapshot Registry.assorted.snapshot = .ok .assorted :=
    Registry.ofSnapshot_eq_ok_iff.2 ⟨rfl, rfl⟩
  have hidle (s : Emission Unit) : forced idle s = ["VipsNothing"] := by
    rw [idle, forced, Call.forced_refusing]
    rfl
  have hlisting (s : Emission Unit) : forced listing s = ["VipsToken", "VipsSaveable", "VipsImageType"] := rfl
  have hforced (s : Emission Unit) :
      forced (idle ++ listing) s = ["VipsNothing", "VipsToken", "VipsSaveable", "VipsImageType"] := by
    rw [forced_append, hidle, hlisting]
    rfl
  have hforced' (s : Emission Unit) :
      forced (listing ++ idle) s = ["VipsToken", "VipsSaveable", "VipsImageType", "VipsNothing"] := by
    rw [forced_append, hidle, hlisting]
    rfl
  have hsame (name : String) :
      name ∈ forced (idle ++ listing) ⟨.assorted, ()⟩ ↔ name ∈ forced (listing ++ idle) ⟨.assorted, ()⟩ := by
    rw [hforced, hforced']
    simp [or_comm, or_left_comm]
  obtain ⟨hidden, _, hgrows⟩ := visibility_grows hfresh () idle listing
  obtain ⟨hidden', hequal, _⟩ := visibility_grows hfresh () (idle ++ listing) []
  refine ⟨hfresh, refused_assorted, (hidden _).2 ?_, ?_, (hidden' _).2 ?_, hgrows, hsame, hequal () _ hsame⟩
  · rw [hidle]
    decide
  · rw [hidden', hforced]
    decide
  · rw [hforced]
    decide

end Session

end Autodoc
