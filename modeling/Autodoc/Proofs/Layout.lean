import Mathlib.Data.List.Infix
import Autodoc.TypeTable
import Autodoc.Proofs.Validation

namespace Autodoc

namespace Indexed

/-- A computation reports what is wrong, or it gives something of which `p` holds; no place it uses is out of range. -/
def Gives (m : Indexed ε α) (e? : Option ε) (p : α → Prop) : Prop :=
  match e? with
  | some e => m = throw e
  | none => ∃ a, m = pure a ∧ p a

variable {m : Indexed ε α} {e? e?' : Option ε} {p : α → Prop}

theorem gives_pure {a : α} (h : p a) : Gives (ε := ε) (pure a) none p := ⟨a, rfl, h⟩

theorem Gives.bind {f : α → Indexed ε β} {q : β → Prop} (h : Gives m e? p)
    (hf : e? = none → ∀ a, p a → Gives (f a) e?' q) : Gives (m >>= f) (e? <|> e?') q := by
  cases e? with
  | some e =>
    obtain rfl : m = throw e := h
    rfl
  | none =>
    obtain ⟨a, rfl, hp⟩ := h
    rw [pure_bind]
    exact hf rfl a hp

theorem Gives.bind_silent {f : α → Indexed ε β} {q : β → Prop} (h : Gives m e? p)
    (hf : ∀ a, p a → Gives (f a) none q) : Gives (m >>= f) e? q := by
  have hgives := h.bind fun _ => hf
  rwa [Option.orElse_eq_orElse, Option.orElse_eq_or, Option.or_none] at hgives

/-- A fold reports what its first faulty step does, where each step keeps a condition on the elements done. -/
theorem gives_foldlM {f : β → α → Indexed ε β} {report : α → Option ε} {I : List α → β → Prop} {l : List α}
    (hstep : ∀ done a rest b, l = done ++ a :: rest → I done b → Gives (f b a) (report a) (I (done ++ [a])))
    {b : β} (hb : I [] b) : Gives (l.foldlM f b) (l.findSome? report) (I l) := by
  suffices hrun : ∀ rest done b, l = done ++ rest → I done b →
      Gives (rest.foldlM f b) (rest.findSome? report) (I l) from hrun l [] b rfl hb
  intro rest
  induction rest with
  | nil =>
    intro done b hl hb
    rw [List.append_nil] at hl
    exact gives_pure (hl ▸ hb)
  | cons a rest ih =>
    intro done b hl hb
    rw [List.foldlM_cons, List.findSome?_cons]
    have hrest : ∀ b, I (done ++ [a]) b → Gives (rest.foldlM f b) (rest.findSome? report) (I l) :=
      fun b hb => ih (done ++ [a]) b (by rw [hl, List.append_assoc, List.singleton_append]) hb
    have hgives := (hstep done a rest b hl hb).bind fun _ => hrest
    cases hr : report a <;> rw [hr] at hgives <;> exact hgives

theorem gives_forM {f : α → Indexed ε PUnit} {report : α → Option ε}
    (hf : ∀ a, Gives (f a) (report a) fun _ => True) (l : List α) :
    Gives (l.forM f) (l.findSome? report) fun _ => True := by
  induction l with
  | nil => exact gives_pure trivial
  | cons a l ih =>
    rw [List.forM_eq_forM, List.forM_cons, List.findSome?_cons]
    have hgives := (hf a).bind fun _ _ _ => ih
    cases hr : report a <;> rw [hr] at hgives <;> exact hgives

theorem get_eq {xs : List α} {i : Nat} {x : α} (h : xs[i]? = some x) : (get xs i : Indexed ε α) = pure x := by
  simp only [get, h]

theorem modify_eq {xs : List α} {i : Nat} (h : i < xs.length) (f : α → α) :
    (modify xs i f : Indexed ε (List α)) = pure (xs.modify i f) := if_pos h

end Indexed

theorem modify_map_idxOf {names : List String} (hd : names.Nodup) {name : String} (hn : name ∈ names) (f : String → α)
    (g : α → α) : (names.map f).modify (names.idxOf name) g = names.map (Function.update f name (g (f name))) := by
  induction names with
  | nil => cases hn
  | cons n names ih =>
    obtain ⟨hnot, hd⟩ := List.nodup_cons.1 hd
    by_cases he : n = name
    · subst he
      have hrest : names.map (Function.update f n (g (f n))) = names.map f :=
        List.map_congr_left fun m hm => Function.update_of_ne (ne_of_mem_of_not_mem hm hnot) _ _
      rw [List.idxOf_cons_self, List.map_cons, List.map_cons, List.modify_zero_cons, Function.update_self, hrest]
    · have hn := (List.mem_cons.1 hn).resolve_left (Ne.symm he)
      rw [List.idxOf_cons_ne _ he, List.map_cons, List.map_cons, Nat.succ_eq_add_one, List.modify_succ_cons, ih hd hn,
        Function.update_of_ne he]

def Places (byName : Table Nat) (names : List String) : Prop :=
  ∀ name, byName.get? name = if name ∈ names then some (names.idxOf name) else none

theorem Places.insert {byName : Table Nat} {names : List String} (h : Places byName names) {name : String}
    (hn : name ∉ names) : Places (byName.insert name names.length) (names ++ [name]) := by
  intro n
  rw [Table.get?_insert, h n]
  by_cases he : n = name
  · subst he
    simp [List.idxOf_append_of_notMem hn]
  · by_cases hm : n ∈ names
    · simp [he, hm, List.idxOf_append_of_mem hm]
    · simp [he, hm]

namespace Snapshot

variable {s : Snapshot}

def place (s : Snapshot) (name : String) : Nat := s.typeNames.idxOf name

theorem mem_typeNames_iff_isKnown {name : String} : name ∈ s.typeNames ↔ s.isKnown name = true := by
  rw [mem_typeNames, isKnown, Bool.or_eq_true, isSome_record?_iff]

theorem mem_typeNames_of_isRoot {name : String} (h : Kind.IsRoot name) : name ∈ s.typeNames := mem_typeNames.2 (.inl h)

theorem place_lt {name : String} (h : name ∈ s.typeNames) : s.place name < s.typeNames.length :=
  List.idxOf_lt_length_iff.2 h

theorem getElem?_place {name : String} (h : name ∈ s.typeNames) : s.typeNames[s.place name]? = some name :=
  List.getElem?_idxOf h

theorem place_inj {m n : String} (hm : m ∈ s.typeNames) (hn : n ∈ s.typeNames) (h : s.place m = s.place n) : m = n := by
  have hnames := getElem?_place hm
  rw [h, getElem?_place hn] at hnames
  exact (Option.some.inj hnames).symm

theorem place_lt_rootCount_iff {name : String} : s.place name < rootCount ↔ Kind.IsRoot name := by
  rw [Kind.IsRoot, Kind.isSome_ofRoot?_iff, place, typeNames]
  constructor
  · intro h
    by_contra hn
    rw [List.idxOf_append_of_notMem hn, List.length_map] at h
    exact absurd h (Nat.not_lt.2 (Nat.le_add_right _ _))
  · intro h
    rw [List.idxOf_append_of_mem h]
    have hlt := List.idxOf_lt_length_iff.2 h
    rwa [List.length_map] at hlt

theorem nodup_typeNames (hd : (s.types.map (·.name)).Nodup) : s.typeNames.Nodup := by
  refine List.nodup_append.2 ⟨by decide, hd.filter _, ?_⟩
  rintro root hroot _ hdeclared rfl
  have hnone := (List.mem_filter.1 hdeclared).2
  rw [← Kind.isSome_ofRoot?_iff] at hroot
  rw [Option.isNone_iff_eq_none] at hnone
  simp [hnone] at hroot

theorem typeNames_getElem?_iff (hd : (s.types.map (·.name)).Nodup) {i : Nat} {name : String} :
    s.typeNames[i]? = some name ↔ name ∈ s.typeNames ∧ s.place name = i := by
  constructor
  · intro h
    obtain ⟨hi, rfl⟩ := List.getElem?_eq_some_iff.1 h
    exact ⟨List.getElem_mem hi, (nodup_typeNames hd).idxOf_getElem i hi⟩
  · rintro ⟨hn, rfl⟩
    exact getElem?_place hn

def entry (s : Snapshot) (name : String) : TypeNode :=
  { TypeNode.blank name ((Kind.ofRoot? name).getD .unknown) with
    nickname := (s.record? name).bind (·.nickname)
    isAbstract := (s.record? name).any (·.isAbstract)
    isAnonymous := (s.record? name).any (·.isAnonymous) }

def links (s : Snapshot) : List (Nat × String) := s.types.filterMap fun t => t.parent.map (s.place t.name, ·)

/-- A draft in which the types of a snapshot are declared. -/
structure Drafted (s : Snapshot) (d : TypeDraft) : Prop where
  nodes : d.nodes = s.typeNames.map s.entry
  byName : Places d.byName s.typeNames
  links : d.links = s.links
  redeclared : ∀ name, Kind.IsRoot name → (s.place name ∈ d.redeclared ↔ name ∈ s.types.map (·.name))

def withTypes (s : Snapshot) (ts : List TypeRecord) : Snapshot := { s with types := ts }

@[simp] theorem types_withTypes (ts : List TypeRecord) : (s.withTypes ts).types = ts := rfl

theorem typeNames_withTypes_nil : (s.withTypes []).typeNames = Kind.roots.map Prod.fst := by
  rw [typeNames, declared, withTypes, List.map_nil, List.filter_nil, List.append_nil]

theorem record?_withTypes_append {ts : List TypeRecord} {t : TypeRecord} {name : String} :
    (s.withTypes (ts ++ [t])).record? name =
      ((s.withTypes ts).record? name).or (if t.name = name then some t else none) := by
  simp [record?, withTypes, List.find?_singleton]

theorem record?_withTypes_eq_none {ts : List TypeRecord} {name : String} (h : name ∉ ts.map (·.name)) :
    (s.withTypes ts).record? name = none := by
  simpa [record?, withTypes] using h

end Snapshot

theorem TypeDraft.push_all (es : List (String × Kind)) {d : TypeDraft} {names : List String}
    (hlength : d.nodes.length = names.length) (hplaces : Places d.byName names)
    (hd : (names ++ es.map Prod.fst).Nodup) :
    ∃ byName, es.foldl (fun d (name, kind) => d.push name kind) d =
        { d with nodes := d.nodes ++ es.map fun e => .blank e.1 e.2, byName } ∧
      Places byName (names ++ es.map Prod.fst) := by
  induction es generalizing d names with
  | nil => exact ⟨d.byName, by simp, by simpa using hplaces⟩
  | cons e es ih =>
    have happend : names ++ (e :: es).map Prod.fst = (names ++ [e.1]) ++ es.map Prod.fst := by simp
    rw [happend] at hd ⊢
    have hnot : e.1 ∉ names := by
      intro hm
      exact (List.nodup_append.1 (List.nodup_append.1 hd).1).2.2 e.1 hm e.1 List.mem_cons_self rfl
    have hpush : Places (d.push e.1 e.2).byName (names ++ [e.1]) := by
      rw [push, hlength]
      exact hplaces.insert hnot
    obtain ⟨byName, hfold, hall⟩ := ih (by simp [push, hlength]) hpush hd
    refine ⟨byName, ?_, hall⟩
    rw [List.foldl_cons, hfold]
    simp [push]

namespace Snapshot

variable {s : Snapshot}

theorem drafted_roots : (s.withTypes []).Drafted .roots := by
  have hnil : Places ({} : Table Nat) [] := fun _ => rfl
  obtain ⟨byName, hroots, hplaces⟩ :=
    TypeDraft.push_all Kind.roots (d := ⟨[], {}, [], []⟩) rfl hnil (by decide)
  rw [TypeDraft.roots, hroots]
  constructor
  case nodes =>
    rw [typeNames_withTypes_nil]
    rfl
  case byName =>
    rw [typeNames_withTypes_nil]
    exact hplaces
  case links => rfl
  case redeclared =>
    intro name _
    simp [withTypes]

section Step

variable {ts : List TypeRecord} {t : TypeRecord} {d d' : TypeDraft}

theorem typeNames_append_of_isRoot (h : Kind.IsRoot t.name) :
    (s.withTypes (ts ++ [t])).typeNames = (s.withTypes ts).typeNames := by
  have hroot : (Kind.ofRoot? t.name).isNone = false := by rwa [← Option.not_isSome, Bool.not_eq_false']
  simp [typeNames, declared, withTypes, hroot]

theorem typeNames_append_of_not_isRoot (h : ¬ Kind.IsRoot t.name) :
    (s.withTypes (ts ++ [t])).typeNames = (s.withTypes ts).typeNames ++ [t.name] := by
  have hroot : (Kind.ofRoot? t.name).isNone = true :=
    Option.isNone_iff_eq_none.2 (Option.not_isSome_iff_eq_none.1 h)
  simp [typeNames, declared, withTypes, hroot]

theorem place_withTypes_append {name : String} (h : name ∈ (s.withTypes ts).typeNames) :
    (s.withTypes (ts ++ [t])).place name = (s.withTypes ts).place name := by
  by_cases hr : Kind.IsRoot t.name
  · rw [place, place, typeNames_append_of_isRoot hr]
  · rw [place, place, typeNames_append_of_not_isRoot hr, List.idxOf_append_of_mem h]

theorem mem_typeNames_of_recorded {name : String} (h : name ∈ ts.map (·.name)) : name ∈ (s.withTypes ts).typeNames := by
  obtain ⟨u, hu, rfl⟩ := List.mem_map.1 h
  exact mem_typeNames_of_mem (s := s.withTypes ts) hu

/-- A draft in which a type has a place, and is not declared yet. -/
structure Placed (s : Snapshot) (ts : List TypeRecord) (t : TypeRecord) (d : TypeDraft) : Prop where
  nodes : d.nodes = (s.withTypes (ts ++ [t])).typeNames.map (s.withTypes ts).entry
  byName : Places d.byName (s.withTypes (ts ++ [t])).typeNames
  links : d.links = (s.withTypes ts).links
  redeclared : ∀ name, Kind.IsRoot name →
    ((s.withTypes (ts ++ [t])).place name ∈ d.redeclared ↔ name ∈ (ts ++ [t]).map (·.name))

theorem Drafted.get?_byName (h : s.Drafted d) {name : String} (hm : name ∈ s.typeNames) :
    d.byName.get? name = some (s.place name) := (h.byName name).trans (if_pos hm)

theorem Drafted.place_again (h : (s.withTypes ts).Drafted d) (hdone : t.name ∈ ts.map (·.name)) :
    d.place t.name = throw (.duplicateType t.name) := by
  have htaken : ¬ ((s.withTypes ts).place t.name < rootCount ∧ (s.withTypes ts).place t.name ∉ d.redeclared) := by
    rintro ⟨hroot, hnot⟩
    exact hnot ((h.redeclared t.name (place_lt_rootCount_iff.1 hroot)).2 hdone)
  simp only [TypeDraft.place, h.get?_byName (mem_typeNames_of_recorded hdone), if_neg htaken]

theorem Drafted.place_root (h : (s.withTypes ts).Drafted d) (hr : Kind.IsRoot t.name)
    (hnew : t.name ∉ ts.map (·.name)) :
    ∃ d', d.place t.name = pure ((s.withTypes (ts ++ [t])).place t.name, d') ∧ s.Placed ts t d' := by
  have hm : t.name ∈ (s.withTypes ts).typeNames := mem_typeNames_of_isRoot hr
  have hfree : (s.withTypes ts).place t.name < rootCount ∧ (s.withTypes ts).place t.name ∉ d.redeclared :=
    ⟨place_lt_rootCount_iff.2 hr, fun hc => hnew ((h.redeclared t.name hr).1 hc)⟩
  refine ⟨{ d with redeclared := d.redeclared ++ [(s.withTypes ts).place t.name] }, ?_, ?_⟩
  · simp only [TypeDraft.place, h.get?_byName hm, if_pos hfree, place_withTypes_append hm]
  · constructor
    case nodes =>
      rw [typeNames_append_of_isRoot hr]
      exact h.nodes
    case byName =>
      rw [typeNames_append_of_isRoot hr]
      exact h.byName
    case links => exact h.links
    case redeclared =>
      intro name hname
      have hmem : name ∈ (s.withTypes ts).typeNames := mem_typeNames_of_isRoot hname
      have hplace : (s.withTypes ts).place name = (s.withTypes ts).place t.name ↔ name = t.name :=
        ⟨place_inj hmem hm, fun he => he ▸ rfl⟩
      simp only [place_withTypes_append hmem, List.map_append, List.mem_append, h.redeclared name hname,
        types_withTypes, List.map_singleton, List.mem_singleton, hplace]

theorem Drafted.place_new (h : (s.withTypes ts).Drafted d) (hr : ¬ Kind.IsRoot t.name)
    (hnew : t.name ∉ ts.map (·.name)) :
    ∃ d', d.place t.name = pure ((s.withTypes (ts ++ [t])).place t.name, d') ∧ s.Placed ts t d' := by
  have hm : t.name ∉ (s.withTypes ts).typeNames := by
    intro hm
    obtain hroot | ⟨u, hu, hname⟩ := mem_typeNames.1 hm
    · exact hr hroot
    · exact hnew (List.mem_map.2 ⟨u, hu, hname⟩)
  have hnone : d.byName.get? t.name = none := (h.byName t.name).trans (if_neg hm)
  have hlength : d.nodes.length = (s.withTypes ts).typeNames.length := by rw [h.nodes, List.length_map]
  have hplace : (s.withTypes (ts ++ [t])).place t.name = d.nodes.length := by
    rw [place, typeNames_append_of_not_isRoot hr, List.idxOf_append_of_notMem hm, List.idxOf_cons_self, hlength,
      Nat.add_zero]
  refine ⟨d.push t.name .unknown, ?_, ?_⟩
  · simp only [TypeDraft.place, hnone, hplace]
  · constructor
    case nodes =>
      have hblank : (s.withTypes ts).entry t.name = .blank t.name .unknown := by
        rw [entry, record?_withTypes_eq_none hnew, Option.not_isSome_iff_eq_none.1 hr]
        rfl
      rw [typeNames_append_of_not_isRoot hr, List.map_append, ← h.nodes, List.map_singleton, hblank]
      rfl
    case byName =>
      rw [typeNames_append_of_not_isRoot hr, TypeDraft.push, hlength]
      exact h.byName.insert hm
    case links => exact h.links
    case redeclared =>
      intro name hname
      have hmem : name ∈ (s.withTypes ts).typeNames := mem_typeNames_of_isRoot hname
      have hne : name ≠ t.name := fun he => hr (he ▸ hname)
      simp only [place_withTypes_append hmem, TypeDraft.push, List.map_append, List.mem_append,
        h.redeclared name hname, types_withTypes, List.map_singleton, List.mem_singleton, hne, or_false]

theorem links_withTypes_append : (s.withTypes (ts ++ [t])).links =
    (s.withTypes ts).links ++ (t.parent.map ((s.withTypes (ts ++ [t])).place t.name, ·)).toList := by
  have hkept : ∀ u ∈ ts, u.parent.map ((s.withTypes (ts ++ [t])).place u.name, ·) =
      u.parent.map ((s.withTypes ts).place u.name, ·) := by
    intro u hu
    rw [place_withTypes_append (mem_typeNames_of_mem (s := s.withTypes ts) hu)]
  rw [links, links, types_withTypes, types_withTypes, List.filterMap_append, List.filterMap_congr hkept]
  cases hp : t.parent <;> simp [hp]

theorem update_entry (hnew : t.name ∉ ts.map (·.name)) :
    Function.update (s.withTypes ts).entry t.name { (s.withTypes ts).entry t.name with
        nickname := t.nickname
        isAbstract := t.isAbstract
        isAnonymous := t.isAnonymous } = (s.withTypes (ts ++ [t])).entry := by
  funext name
  by_cases he : name = t.name
  · subst he
    rw [Function.update_self, entry, entry, record?_withTypes_append, record?_withTypes_eq_none hnew]
    simp
  · rw [Function.update_of_ne he, entry, entry, record?_withTypes_append, if_neg (Ne.symm he), Option.or_none]

theorem nodup_append_singleton (hd : (ts.map (·.name)).Nodup) (hnew : t.name ∉ ts.map (·.name)) :
    ((ts ++ [t]).map (·.name)).Nodup := by
  rw [List.map_append, List.map_singleton]
  exact hd.append (List.nodup_singleton _) (by simpa using hnew)

/-- What is recorded of a type is entered at its place. -/
theorem Placed.declare (hd : ((ts ++ [t]).map (·.name)).Nodup) (h : s.Placed ts t d)
    (hplace : d'.place t.name = pure ((s.withTypes (ts ++ [t])).place t.name, d)) :
    ∃ d'', d'.declare t = pure d'' ∧ (s.withTypes (ts ++ [t])).Drafted d'' := by
  have hm : t.name ∈ (s.withTypes (ts ++ [t])).typeNames :=
    mem_typeNames_of_mem (List.mem_append_right _ List.mem_cons_self)
  have hnew : t.name ∉ ts.map (·.name) := by
    rw [List.map_append, List.nodup_append] at hd
    exact fun hc => hd.2.2 t.name hc t.name List.mem_cons_self rfl
  have hlt : (s.withTypes (ts ++ [t])).place t.name < d.nodes.length := by
    rw [h.nodes, List.length_map]
    exact place_lt hm
  simp only [TypeDraft.declare, hplace, pure_bind, Indexed.modify_eq hlt]
  refine ⟨_, rfl, ?_⟩
  constructor
  case nodes => rw [h.nodes, place, modify_map_idxOf (nodup_typeNames hd) hm, update_entry hnew]
  case byName => exact h.byName
  case links =>
    rw [links_withTypes_append]
    cases hp : t.parent <;> simp [h.links]
  case redeclared => exact h.redeclared

theorem Drafted.declare (hd : (ts.map (·.name)).Nodup) (h : (s.withTypes ts).Drafted d) :
    (d.declare t).Gives (if t.name ∈ ts.map (·.name) then some (.duplicateType t.name) else none)
      (s.withTypes (ts ++ [t])).Drafted := by
  by_cases hdone : t.name ∈ ts.map (·.name)
  · rw [if_pos hdone, TypeDraft.declare, h.place_again hdone]
    rfl
  · have hplaced : ∃ d', d.place t.name = pure ((s.withTypes (ts ++ [t])).place t.name, d') ∧ s.Placed ts t d' := by
      by_cases hr : Kind.IsRoot t.name
      · exact h.place_root hr hdone
      · exact h.place_new hr hdone
    obtain ⟨d', hplace, hplaced⟩ := hplaced
    rw [if_neg hdone]
    exact hplaced.declare (nodup_append_singleton hd hdone) hplace

theorem Drafted.declare_all {rest : List TypeRecord} {seen : List String} (hd : (ts.map (·.name)).Nodup)
    (hseen : ∀ name, name ∈ seen ↔ name ∈ ts.map (·.name)) (h : (s.withTypes ts).Drafted d) :
    (rest.foldlM TypeDraft.declare d).Gives ((firstRepeat? seen (rest.map (·.name))).map .duplicateType)
      (s.withTypes (ts ++ rest)).Drafted := by
  induction rest generalizing ts d seen with
  | nil =>
    rw [List.append_nil]
    exact Indexed.gives_pure h
  | cons t rest ih =>
    have hstep := h.declare hd (t := t)
    rw [List.foldlM_cons, List.map_cons, firstRepeat?]
    by_cases hdone : t.name ∈ ts.map (·.name)
    · have hrepeat : seen.contains t.name = true := List.contains_iff_mem.2 ((hseen t.name).2 hdone)
      rw [if_pos hdone] at hstep
      rw [if_pos hrepeat, show d.declare t = throw (.duplicateType t.name) from hstep]
      rfl
    · have hfirst : ¬ seen.contains t.name = true := fun hc => hdone ((hseen t.name).1 (List.contains_iff_mem.1 hc))
      rw [if_neg hdone] at hstep
      obtain ⟨d', hdeclare, hdrafted⟩ := hstep
      rw [if_neg hfirst, hdeclare, pure_bind, List.append_cons]
      refine ih (nodup_append_singleton hd hdone) ?_ hdrafted
      intro name
      rw [List.mem_cons, hseen, List.map_append, List.mem_append, List.map_singleton, List.mem_singleton, or_comm]

end Step

/-- Declaring stops at the first name that repeats, and else it leaves all types declared. -/
theorem gives_drafted (s : Snapshot) : (s.types.foldlM TypeDraft.declare .roots).Gives s.duplicate? s.Drafted := by
  have hnone : (([] : List TypeRecord).map (·.name)).Nodup := List.nodup_nil
  exact drafted_roots.declare_all hnone fun _ => Iff.rfl

end Snapshot

end Autodoc
