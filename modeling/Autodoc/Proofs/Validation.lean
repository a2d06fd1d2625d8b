import Autodoc.Proofs.Ancestry

namespace Autodoc

/-- The first element of a list of which something holds. -/
def FirstWith (bad : α → Prop) (l : List α) (a : α) : Prop :=
  ∃ before after, l = before ++ a :: after ∧ bad a ∧ ∀ b ∈ before, ¬ bad b

theorem FirstWith.mem {q : α → Prop} {l : List α} {a : α} (h : FirstWith q l a) : a ∈ l := by
  obtain ⟨before, after, rfl, _⟩ := h
  exact List.mem_append_right _ List.mem_cons_self

theorem FirstWith.holds {q : α → Prop} {l : List α} {a : α} (h : FirstWith q l a) : q a := by
  obtain ⟨_, _, _, ha, _⟩ := h
  exact ha

theorem find?_eq_some_iff_firstWith {p : α → Bool} {q : α → Prop} {l : List α} {a : α}
    (h : ∀ a, p a = true ↔ q a) : l.find? p = some a ↔ FirstWith q l a := by
  simp only [List.find?_eq_some_iff_append, Bool.not_eq_true', ← Bool.not_eq_true, h]
  constructor
  · rintro ⟨ha, before, after, hl, hbefore⟩
    exact ⟨before, after, hl, ha, hbefore⟩
  · rintro ⟨before, after, hl, ha, hbefore⟩
    exact ⟨ha, before, after, hl, hbefore⟩

theorem FirstWith.unique {q : α → Prop} {l : List α} {a b : α} (ha : FirstWith q l a) (hb : FirstWith q l b) :
    a = b := by
  classical
  have hsearch {c : α} : (l.find? fun c => q c) = some c ↔ FirstWith q l c :=
    find?_eq_some_iff_firstWith fun _ => decide_eq_true_iff
  exact Option.some.inj ((hsearch.2 ha).symm.trans (hsearch.2 hb))

theorem findSome?_eq_some_iff_firstWith {f : α → Option β} {p : α → Prop} {l : List α} {b : β}
    (h : ∀ a, f a = none ↔ ¬ p a) : l.findSome? f = some b ↔ ∃ a, FirstWith p l a ∧ f a = some b := by
  rw [List.findSome?_eq_some_iff]
  constructor
  · rintro ⟨before, a, after, hl, ha, hbefore⟩
    have hp : p a := by
      by_contra hn
      rw [(h a).2 hn] at ha
      cases ha
    exact ⟨a, ⟨before, after, hl, hp, fun x hx => (h x).1 (hbefore x hx)⟩, ha⟩
  · rintro ⟨a, ⟨before, after, hl, _, hbefore⟩, ha⟩
    exact ⟨before, a, after, hl, ha, fun x hx => (h x).2 (hbefore x hx)⟩

theorem findSome?_flatMap_map {f : γ → Option δ} {k : α → β → γ} {items : α → List β} (l : List α) :
    (l.flatMap fun a => (items a).map (k a)).findSome? f =
      l.findSome? fun a => (items a).findSome? fun b => f (k a b) := by
  induction l with
  | nil => rfl
  | cons a l ih =>
    rw [List.flatMap_cons, List.findSome?_append, ih, List.findSome?_map, List.findSome?_cons]
    cases h : (items a).findSome? fun b => f (k a b) <;> simp [Function.comp_def, h]

theorem findSome?_filter {f : α → Option β} {p : α → Bool} (l : List α) :
    (l.filter p).findSome? f = l.findSome? fun a => if p a then f a else none := by
  induction l with
  | nil => rfl
  | cons a l ih =>
    cases h : p a <;> simp [List.findSome?_cons, h, ih]

theorem findSome?_check_iff {l : List α} {ok : α → Bool} {passes : α → Prop} {report : α → β} {b : β}
    (h : ∀ a, ok a = true ↔ passes a) :
    (l.findSome? fun a => if ok a then none else some (report a)) = some b ↔
      ∃ a, FirstWith (fun a => ¬ passes a) l a ∧ b = report a := by
  rw [findSome?_eq_some_iff_firstWith (p := fun a => ¬ passes a)]
  · refine exists_congr fun a => and_congr_right ?_
    rintro ⟨_, _, _, hbad, _⟩
    rw [if_neg (mt (h a).1 hbad), Option.some.injEq, eq_comm]
  · intro a
    rw [not_not, ← h a]
    cases ok a <;> simp

theorem map_find?_not {ok : α → Bool} {report : α → β} (l : List α) :
    (l.find? fun a => !ok a).map report = l.findSome? fun a => if ok a then none else some (report a) := by
  induction l with
  | nil => rfl
  | cons a l ih => cases h : ok a <;> simp [h, ih]

namespace Snapshot

variable {s : Snapshot}

def Knows (s : Snapshot) (name : String) : Prop := Kind.IsRoot name ∨ ∃ t ∈ s.types, t.name = name

/-- Following parents ends: at a type without a parent, or at a root. -/
inductive Grounded (s : Snapshot) : String → Prop
  | loose {type : String} (h : s.parent? type = none) : Grounded s type
  | root {type parent : String} (h : s.parent? type = some parent) (hr : Kind.IsRoot parent) : Grounded s type
  | step {type parent : String} (h : s.parent? type = some parent) (hp : Grounded s parent) : Grounded s type

/-- The phases of checking, one for each thing that a snapshot may get wrong. -/
inductive Phase where
  | names
  | parents
  | chains
  | arguments
  | properties
  | enums
  | lazyTypes

def Phase.all : List Phase := [names, parents, chains, arguments, properties, enums, lazyTypes]

/-- What a phase asks of a snapshot. -/
def Passes (s : Snapshot) : Phase → Prop
  | .names => (s.types.map (·.name)).Nodup
  | .parents => ∀ t ∈ s.types, ∀ parent, t.parent = some parent → s.Knows parent
  | .chains => ∀ t ∈ s.types, ¬ Kind.IsRoot t.name → s.Grounded t.name
  | .arguments => ∀ e ∈ s.operations.entries, ∀ a ∈ e.2.arguments, s.Knows a.type
  | .properties => ∀ p ∈ s.properties, s.Knows p.type
  | .enums => ∀ name ∈ s.enums.keys, s.Knows name
  | .lazyTypes => ∀ name ∈ s.lazyTypes, s.Knows name

def ownedArguments (s : Snapshot) : List (String × ArgumentRecord) :=
  s.operations.entries.flatMap fun e => e.2.arguments.map (e.1, ·)

/-- What a phase reports: the first record that fails it. -/
inductive Reports (s : Snapshot) : Phase → SnapshotError → Prop
  | taken {before after : List TypeRecord} {t : TypeRecord} (hs : s.types = before ++ t :: after)
      (hbefore : (before.map (·.name)).Nodup) (ht : t.name ∈ before.map (·.name)) :
      Reports s .names (.duplicateType t.name)
  | parent {t : TypeRecord} {parent : String}
      (h : FirstWith (fun t => ∃ parent, t.parent = some parent ∧ ¬ s.Knows parent) s.types t)
      (hp : t.parent = some parent) : Reports s .parents (.unknownParent t.name parent)
  | chain {t : TypeRecord} (h : FirstWith (fun t => ¬ Kind.IsRoot t.name ∧ ¬ s.Grounded t.name) s.types t) :
      Reports s .chains (.cycle t.name)
  | argument {owner : String} {a : ArgumentRecord}
      (h : FirstWith (fun e => ¬ s.Knows e.2.type) s.ownedArguments (owner, a)) :
      Reports s .arguments (.unknownFieldType owner a.name a.type)
  | property {p : PropertyRecord} (h : FirstWith (fun p => ¬ s.Knows p.type) s.properties p) :
      Reports s .properties (.unknownFieldType "VipsImage" p.name p.type)
  | enum {name : String} (h : FirstWith (fun name => ¬ s.Knows name) s.enums.keys name) :
      Reports s .enums (.unknownEnum name)
  | lazyType {name : String} (h : FirstWith (fun name => ¬ s.Knows name) s.lazyTypes name) :
      Reports s .lazyTypes (.unknownLazyType name)

theorem isKnown_iff {name : String} : s.isKnown name = true ↔ s.Knows name := by
  rw [isKnown, Bool.or_eq_true, isSome_record?_iff, Knows, Kind.IsRoot]

theorem climb_succ_eq_endless_iff {fuel : Nat} {type : String} : s.climb (fuel + 1) type = .endless ↔
    ∃ parent, s.parent? type = some parent ∧ ¬ Kind.IsRoot parent ∧ s.climb fuel parent = .endless := by
  cases hp : s.parent? type with
  | none => simp [climb, hp]
  | some parent => cases hr : Kind.ofRoot? parent <;> simp [climb, hp, hr, Kind.IsRoot]

theorem climb_of_succ {fuel : Nat} {type : String} (h : s.climb (fuel + 1) type = .endless) :
    s.climb fuel type = .endless := by
  induction fuel generalizing type with
  | zero => rfl
  | succ fuel ih =>
    obtain ⟨parent, hp, hr, hc⟩ := climb_succ_eq_endless_iff.1 h
    exact climb_succ_eq_endless_iff.2 ⟨parent, hp, hr, ih hc⟩

theorem climb_of_le {m n : Nat} {type : String} (hmn : m ≤ n) (h : s.climb n type = .endless) :
    s.climb m type = .endless := by
  induction hmn with
  | refl => exact h
  | step _ ih => exact ih (climb_of_succ h)

/-- A climb that ends with its last step passes as many recorded types as it has steps before that, all of them
different. -/
theorem exists_types_of_climb {n : Nat} {type : String} (hn : s.climb n type = .endless)
    (hend : s.climb (n + 1) type ≠ .endless) : ∃ types : List String, types.Nodup ∧ types.length = n ∧
      (∀ t ∈ types, t ∈ s.typeNames) ∧ ∀ t ∈ types, s.climb (n + 1) t ≠ .endless := by
  induction n generalizing type with
  | zero => exact ⟨[], List.nodup_nil, rfl, by simp, by simp⟩
  | succ n ih =>
    obtain ⟨parent, hp, hr, hparent⟩ := climb_succ_eq_endless_iff.1 hn
    have hparentEnd : s.climb (n + 1) parent ≠ .endless :=
      fun h => hend (climb_succ_eq_endless_iff.2 ⟨parent, hp, hr, h⟩)
    obtain ⟨types, hd, hlength, hknown, hends⟩ := ih hparent hparentEnd
    obtain ⟨t, ht, _⟩ := Option.bind_eq_some_iff.1 hp
    obtain ⟨htypes, hname⟩ := mem_of_record?_eq_some ht
    -- the type is none of those above it, from which fewer steps are left
    refine ⟨type :: types, List.nodup_cons.2 ⟨fun h => hends type h hn, hd⟩, ?_, ?_, ?_⟩
    · rw [List.length_cons, hlength]
    · exact List.forall_mem_cons.2 ⟨hname ▸ mem_typeNames_of_mem htypes, hknown⟩
    · exact List.forall_mem_cons.2 ⟨hend, fun u hu h => hends u hu (climb_of_succ h)⟩

theorem chain_eq_endless_iff {type : String} :
    s.chain type = .endless ↔ ∀ n, s.climb n type = .endless := by
  refine ⟨fun h n => ?_, fun h => h _⟩
  induction n with
  | zero => rfl
  | succ n ih =>
    by_contra hend
    obtain ⟨types, hd, hlength, hknown, _⟩ := exists_types_of_climb ih hend
    -- a chain may climb one step more than there are types, so it has seen the end as well
    have hle : types.length ≤ s.typeNames.length := hd.length_le_of_subset hknown
    rw [hlength] at hle
    exact hend (climb_of_le (Nat.succ_le_succ hle) h)

theorem Grounded.exists_climb {type : String} (h : s.Grounded type) : ∃ n, s.climb n type ≠ .endless := by
  induction h with
  | @loose type h =>
    refine ⟨1, fun hc => ?_⟩
    obtain ⟨parent, hp, _⟩ := climb_succ_eq_endless_iff.1 hc
    cases h.symm.trans hp
  | @root type parent h hr =>
    refine ⟨1, fun hc => ?_⟩
    obtain ⟨parent', hp, hr', _⟩ := climb_succ_eq_endless_iff.1 hc
    cases h.symm.trans hp
    exact hr' hr
  | @step type parent h _ ih =>
    obtain ⟨n, hn⟩ := ih
    refine ⟨n + 1, fun hc => ?_⟩
    obtain ⟨parent', hp, _, hc⟩ := climb_succ_eq_endless_iff.1 hc
    cases h.symm.trans hp
    exact hn hc

theorem grounded_of_climb {n : Nat} {type : String} (h : s.climb n type ≠ .endless) : s.Grounded type := by
  induction n generalizing type with
  | zero => exact absurd rfl h
  | succ n ih =>
    cases hp : s.parent? type with
    | none => exact .loose hp
    | some parent =>
      by_cases hr : Kind.IsRoot parent
      · exact .root hp hr
      · exact .step hp (ih fun hc => h (climb_succ_eq_endless_iff.2 ⟨parent, hp, hr, hc⟩))

theorem grounded_iff {type : String} : s.Grounded type ↔ s.chain type ≠ .endless := by
  rw [Ne, chain_eq_endless_iff, not_forall]
  exact ⟨Grounded.exists_climb, fun ⟨_, h⟩ => grounded_of_climb h⟩

def finding? (s : Snapshot) : Phase → Option SnapshotError
  | .names => s.duplicate?
  | .parents => s.unknownParent?
  | .chains => s.cycle?
  | .arguments => s.unknownArgumentType?
  | .properties => s.unknownPropertyType?
  | .enums => s.unknownEnum?
  | .lazyTypes => s.unknownLazyType?

theorem defect?_eq_findSome? (s : Snapshot) : s.defect? = Phase.all.findSome? s.finding? := by
  have hcons (phase : Phase) (phases : List Phase) : (phase :: phases).findSome? s.finding? =
      (s.finding? phase <|> phases.findSome? s.finding?) := by
    rw [List.findSome?_cons]
    cases s.finding? phase <;> rfl
  simp only [defect?, Phase.all, hcons, List.findSome?_nil, finding?, Option.orElse_eq_orElse,
    Option.orElse_eq_or, Option.or_none]

/-- The first name that repeats comes after names that do not. -/
theorem firstRepeat?_eq_some_iff {seen names : List String} {name : String} :
    firstRepeat? seen names = some name ↔ ∃ before after, names = before ++ name :: after ∧
      before.Nodup ∧ (∀ n ∈ before, n ∉ seen) ∧ (name ∈ before ∨ name ∈ seen) := by
  induction names generalizing seen with
  | nil => simp [firstRepeat?]
  | cons n names ih =>
    by_cases hn : n ∈ seen
    · have hfirst : firstRepeat? seen (n :: names) = some n := by simp [firstRepeat?, hn]
      rw [hfirst]
      constructor
      · rintro ⟨rfl⟩
        exact ⟨[], names, rfl, List.nodup_nil, by simp, .inr hn⟩
      · rintro ⟨before, after, hnames, _, hseen, _⟩
        cases before with
        | nil => exact congrArg some (List.cons.inj hnames).1
        | cons m before =>
          obtain ⟨rfl, _⟩ := List.cons.inj hnames
          exact absurd hn (hseen n List.mem_cons_self)
    · have hrest : firstRepeat? seen (n :: names) = firstRepeat? (n :: seen) names := by
        simp [firstRepeat?, hn]
      rw [hrest, ih]
      constructor
      · rintro ⟨before, after, rfl, hd, hseen, hname⟩
        refine ⟨n :: before, after, rfl, List.nodup_cons.2 ⟨?_, hd⟩, ?_, ?_⟩
        · exact fun hm => hseen n hm List.mem_cons_self
        · exact List.forall_mem_cons.2 ⟨hn, fun m hm h => hseen m hm (List.mem_cons_of_mem _ h)⟩
        · rcases hname with hm | hm
          · exact .inl (List.mem_cons_of_mem _ hm)
          · rcases List.mem_cons.1 hm with rfl | hm
            · exact .inl List.mem_cons_self
            · exact .inr hm
      · rintro ⟨before, after, hnames, hd, hseen, hname⟩
        cases before with
        | nil =>
          obtain ⟨rfl, _⟩ := List.cons.inj hnames
          exact absurd (hname.resolve_left List.not_mem_nil) hn
        | cons m before =>
          obtain ⟨rfl, rfl⟩ := List.cons.inj hnames
          obtain ⟨hm, hd⟩ := List.nodup_cons.1 hd
          refine ⟨before, after, rfl, hd, ?_, ?_⟩
          · intro k hk hks
            rcases List.mem_cons.1 hks with rfl | hks
            · exact hm hk
            · exact hseen k (List.mem_cons_of_mem _ hk) hks
          · rcases hname with hname | hname
            · rcases List.mem_cons.1 hname with rfl | hname
              · exact .inr List.mem_cons_self
              · exact .inl hname
            · exact .inr (List.mem_cons_of_mem _ hname)

theorem duplicate?_eq_some_iff {e : SnapshotError} : s.duplicate? = some e ↔ s.Reports .names e := by
  rw [duplicate?, Option.map_eq_some_iff]
  constructor
  · rintro ⟨name, h, rfl⟩
    obtain ⟨before, after, hnames, hd, _, hname⟩ := firstRepeat?_eq_some_iff.1 h
    obtain ⟨bs, rest, htypes, rfl, hrest⟩ := List.map_eq_append_iff.1 hnames
    obtain ⟨t, as, rfl, rfl, rfl⟩ := List.map_eq_cons_iff.1 hrest
    exact .taken htypes hd (hname.resolve_right List.not_mem_nil)
  · intro h
    cases h with
    | @taken before after t hs hbefore ht =>
      have hnames : s.types.map (·.name) = before.map (·.name) ++ t.name :: after.map (·.name) := by
        rw [hs, List.map_append, List.map_cons]
      exact ⟨_, firstRepeat?_eq_some_iff.2 ⟨_, _, hnames, hbefore, by simp, .inl ht⟩, rfl⟩

theorem unknownParent?_eq_some_iff {e : SnapshotError} :
    s.unknownParent? = some e ↔ s.Reports .parents e := by
  rw [unknownParent?, findSome?_eq_some_iff_firstWith
    (p := fun t => ∃ parent, t.parent = some parent ∧ ¬ s.Knows parent)]
  · constructor
    · rintro ⟨t, hfirst, he⟩
      obtain ⟨_, _, _, ⟨parent, hp, hk⟩, _⟩ := id hfirst
      simp only [hp, isKnown_iff, hk, if_false, Option.some.injEq] at he
      exact he ▸ .parent hfirst hp
    · intro h
      cases h with
      | @parent t parent hfirst hp =>
        obtain ⟨_, _, _, ⟨parent', hp', hk⟩, _⟩ := id hfirst
        cases hp.symm.trans hp'
        refine ⟨t, hfirst, ?_⟩
        simp only [hp, isKnown_iff, hk, if_false]
  · intro t
    cases hp : t.parent with
    | none => simp
    | some parent => simp [isKnown_iff]

theorem cycle?_eq_some_iff {e : SnapshotError} : s.cycle? = some e ↔ s.Reports .chains e := by
  have hflat : s.cycle? = s.types.findSome? fun t =>
      if (Kind.ofRoot? t.name).isSome || !decide (s.chain t.name = .endless) then none
      else some (.cycle t.name) := by
    rw [cycle?, declared, findSome?_filter, List.findSome?_map]
    congr 1
    funext t
    cases hr : Kind.ofRoot? t.name <;> by_cases hc : s.chain t.name = .endless <;> simp [hr, hc]
  have hok (t : TypeRecord) : ((Kind.ofRoot? t.name).isSome || !decide (s.chain t.name = .endless)) = true ↔
      (Kind.IsRoot t.name ∨ s.Grounded t.name) := by
    rw [grounded_iff, Kind.IsRoot, Bool.or_eq_true, Bool.not_eq_true', decide_eq_false_iff_not]
  rw [hflat, findSome?_check_iff hok]
  simp only [not_or]
  constructor
  · rintro ⟨t, hfirst, rfl⟩
    exact .chain hfirst
  · intro h
    cases h with
    | chain hfirst => exact ⟨_, hfirst, rfl⟩

theorem unknownArgumentType?_eq_some_iff {e : SnapshotError} :
    s.unknownArgumentType? = some e ↔ s.Reports .arguments e := by
  have hflat : s.unknownArgumentType? = s.ownedArguments.findSome? fun a =>
      if s.isKnown a.2.type then none else some (.unknownFieldType a.1 a.2.name a.2.type) := by
    rw [ownedArguments, findSome?_flatMap_map]
    rfl
  rw [hflat, findSome?_check_iff fun _ => isKnown_iff]
  constructor
  · rintro ⟨⟨owner, a⟩, hfirst, rfl⟩
    exact .argument hfirst
  · intro h
    cases h with
    | argument hfirst => exact ⟨_, hfirst, rfl⟩

theorem unknownPropertyType?_eq_some_iff {e : SnapshotError} :
    s.unknownPropertyType? = some e ↔ s.Reports .properties e := by
  rw [unknownPropertyType?, findSome?_check_iff fun _ => isKnown_iff]
  constructor
  · rintro ⟨p, hfirst, rfl⟩
    exact .property hfirst
  · intro h
    cases h with
    | property hfirst => exact ⟨_, hfirst, rfl⟩

theorem unknownEnum?_eq_some_iff {e : SnapshotError} : s.unknownEnum? = some e ↔ s.Reports .enums e := by
  rw [unknownEnum?, map_find?_not, findSome?_check_iff fun _ => isKnown_iff]
  constructor
  · rintro ⟨name, hfirst, rfl⟩
    exact .enum hfirst
  · intro h
    cases h with
    | enum hfirst => exact ⟨_, hfirst, rfl⟩

theorem unknownLazyType?_eq_some_iff {e : SnapshotError} :
    s.unknownLazyType? = some e ↔ s.Reports .lazyTypes e := by
  rw [unknownLazyType?, map_find?_not, findSome?_check_iff fun _ => isKnown_iff]
  constructor
  · rintro ⟨name, hfirst, rfl⟩
    exact .lazyType hfirst
  · intro h
    cases h with
    | lazyType hfirst => exact ⟨_, hfirst, rfl⟩

theorem finding?_eq_some_iff {phase : Phase} {e : SnapshotError} :
    s.finding? phase = some e ↔ s.Reports phase e := by
  cases phase with
  | names => exact duplicate?_eq_some_iff
  | parents => exact unknownParent?_eq_some_iff
  | chains => exact cycle?_eq_some_iff
  | arguments => exact unknownArgumentType?_eq_some_iff
  | properties => exact unknownPropertyType?_eq_some_iff
  | enums => exact unknownEnum?_eq_some_iff
  | lazyTypes => exact unknownLazyType?_eq_some_iff

theorem finding?_eq_none_iff {phase : Phase} : s.finding? phase = none ↔ s.Passes phase := by
  cases phase with
  | names => exact duplicate?_eq_none_iff
  | parents => simp only [finding?, Passes, unknownParent?_eq_none_iff, isKnown_iff]
  | chains =>
    simp only [finding?, Passes, cycle?_eq_none_iff, grounded_iff, declared, List.mem_filter, List.mem_map,
      Kind.IsRoot, Option.not_isSome_iff_eq_none, Option.isNone_iff_eq_none]
    constructor
    · exact fun h t ht hr => h _ ⟨⟨t, ht, rfl⟩, hr⟩
    · rintro h _ ⟨⟨t, ht, rfl⟩, hr⟩
      exact h t ht hr
  | arguments => simp only [finding?, Passes, unknownArgumentType?_eq_none_iff, isKnown_iff]
  | properties => simp only [finding?, Passes, unknownPropertyType?_eq_none_iff, isKnown_iff]
  | enums => simp only [finding?, Passes, unknownEnum?_eq_none_iff, isKnown_iff]
  | lazyTypes => simp only [finding?, Passes, unknownLazyType?_eq_none_iff, isKnown_iff]

theorem defect?_eq_none_iff_passes : s.defect? = none ↔ ∀ phase, s.Passes phase := by
  rw [defect?_eq_findSome?, List.findSome?_eq_none_iff]
  simp only [finding?_eq_none_iff]
  refine ⟨fun h phase => h phase ?_, fun h phase _ => h phase⟩
  cases phase <;> simp [Phase.all]

theorem defect?_eq_some_iff {e : SnapshotError} : s.defect? = some e ↔
    ∃ phase, FirstWith (fun phase => ¬ s.Passes phase) Phase.all phase ∧ s.Reports phase e := by
  rw [defect?_eq_findSome?, findSome?_eq_some_iff_firstWith (p := fun phase => ¬ s.Passes phase)]
  · simp only [finding?_eq_some_iff]
  · intro phase
    rw [finding?_eq_none_iff, not_not]

end Snapshot

namespace Registry

theorem ofSnapshot_eq_error_iff {s : Snapshot} {e : SnapshotError} :
    ofSnapshot s = .error e ↔ s.defect? = some e := by
  unfold ofSnapshot
  split
  next e' h => rw [h, Except.error.injEq, Option.some.injEq]
  next h => simp [h]

/-- A snapshot is accepted exactly when it passes every phase, and else the report is that of the first phase
that it fails. -/
theorem ofSnapshot_reports_first (s : Snapshot) :
    ((∃ r, ofSnapshot s = .ok r) ↔ ∀ phase, s.Passes phase) ∧
      ∀ e, ofSnapshot s = .error e ↔ ∃ phase,
        FirstWith (fun phase => ¬ s.Passes phase) Snapshot.Phase.all phase ∧ s.Reports phase e := by
  refine ⟨?_, fun e => ?_⟩
  · rw [exists_ofSnapshot_iff, ← Snapshot.defect?_eq_none_iff, Snapshot.defect?_eq_none_iff_passes]
  · rw [ofSnapshot_eq_error_iff, Snapshot.defect?_eq_some_iff]

end Registry

end Autodoc
