import Mathlib.Data.List.Nodup
import Autodoc.EnumDoc
import Autodoc.Proofs.Descent
import Autodoc.Proofs.Merging

namespace Autodoc

def constantNames (reserved : Table String) (values : List String) : List String :=
  values.map (constantName · reserved)

/-- Values that can all be constants of one class: each gives an identifier, and no two the same. -/
structure MakeConstants (reserved : Table String) (values : List String) : Prop where
  identifiers : ∀ name ∈ constantNames reserved values, isIdentifier name = true
  distinct : (constantNames reserved values).Nodup

/-- A value gives no identifier, or one that a value before it has given. -/
def Offends (reserved : Table String) (before : List String) (value : String) : Prop :=
  isIdentifier (constantName value reserved) = false ∨
    constantName value reserved ∈ constantNames reserved before

variable {reserved : Table String} {before values : List String} {value : String}

theorem constantNames_concat : constantNames reserved (before ++ [value]) =
    constantNames reserved before ++ [constantName value reserved] := by
  rw [constantNames, List.map_append, List.map_singleton, ← constantNames]

theorem MakeConstants.nil : MakeConstants reserved [] := ⟨by simp [constantNames], List.nodup_nil⟩

theorem makeConstants_concat_iff :
    MakeConstants reserved (before ++ [value]) ↔ MakeConstants reserved before ∧ ¬ Offends reserved before value := by
  constructor
  · intro h
    have hids := h.identifiers
    have hnames := h.distinct
    rw [constantNames_concat] at hids hnames
    obtain ⟨hd, _, hnew⟩ := List.nodup_append.1 hnames
    refine ⟨⟨fun name hn => hids name (List.mem_append_left _ hn), hd⟩, ?_⟩
    rintro (hid | htaken)
    · rw [hids _ (List.mem_append_right _ List.mem_cons_self)] at hid
      cases hid
    · exact hnew _ htaken _ List.mem_cons_self rfl
  · rintro ⟨h, hvalue⟩
    obtain ⟨hid, hnew⟩ := not_or.1 hvalue
    constructor
    · rw [constantNames_concat]
      intro name hn
      rcases List.mem_append.1 hn with hn | hn
      · exact h.identifiers name hn
      · rw [List.mem_singleton.1 hn]
        exact Bool.not_eq_false _ ▸ hid
    · rw [constantNames_concat]
      exact List.nodup_append.2 ⟨h.distinct, List.nodup_singleton _, fun a ha b hb he =>
        hnew (List.mem_singleton.1 hb ▸ he ▸ ha)⟩

theorem MakeConstants.of_append (h : MakeConstants reserved (before ++ values)) : MakeConstants reserved before := by
  have hids := h.identifiers
  have hd := h.distinct
  rw [constantNames, List.map_append, ← constantNames, ← constantNames] at hids hd
  exact ⟨fun name hn => hids name (List.mem_append_left _ hn), (List.nodup_append.1 hd).1⟩

theorem MakeConstants.not_offends (h : MakeConstants reserved (before ++ value :: values)) :
    ¬ Offends reserved before value := by
  rw [List.append_cons] at h
  exact (makeConstants_concat_iff.1 h.of_append).2

theorem makeConstants_or_offends (values : List String) (hbefore : MakeConstants reserved before) :
    MakeConstants reserved (before ++ values) ∨ ∃ between value after, values = between ++ value :: after ∧
      MakeConstants reserved (before ++ between) ∧ Offends reserved (before ++ between) value := by
  -- a value that does not offend joins those before the rest
  induction values generalizing before with
  | nil => exact .inl (by rwa [List.append_nil])
  | cons value values ih =>
    by_cases hvalue : Offends reserved before value
    · exact .inr ⟨[], value, values, rfl, by rwa [List.append_nil], by rwa [List.append_nil]⟩
    · have hconcat := makeConstants_concat_iff.2 ⟨hbefore, hvalue⟩
      rcases ih hconcat with hall | ⟨between, offender, after, rfl, hbetween, hoffends⟩
      · exact .inl (by rwa [List.append_cons])
      · refine .inr ⟨value :: between, offender, after, rfl, ?_, ?_⟩
        · rwa [List.append_cons]
        · rwa [List.append_cons]

/-- A replacement that is no reserved name itself leaves no reserved name. -/
theorem constantName_notMem_keys (h : ∀ e ∈ reserved.entries, e.2 ∉ reserved.keys) (value : String) :
    constantName value reserved ∉ reserved.keys := by
  rw [constantName]
  generalize Text.upper (Text.underscored value) = name
  cases hget : reserved.get? name with
  | none => exact valueAt?_eq_none_iff.1 hget
  | some replacement => exact h _ (Table.get?_eq_some_iff.1 hget)

namespace EnumDoc

variable {enum : String} {seen : List String}

/-- The names of the values before are those that are seen. -/
def Remembers (reserved : Table String) (seen before : List String) : Prop :=
  ∀ name, name ∈ seen ↔ name ∈ constantNames reserved before

theorem Remembers.nil : Remembers reserved [] [] := fun _ => .rfl

theorem Remembers.concat (h : Remembers reserved seen before) (value : String) :
    Remembers reserved (constantName value reserved :: seen) (before ++ [value]) := by
  intro name
  rw [constantNames_concat, List.mem_cons, List.mem_append, List.mem_singleton, h name, or_comm]

theorem offends_iff (h : Remembers reserved seen before) : Offends reserved before value ↔
    (!isIdentifier (constantName value reserved) || seen.contains (constantName value reserved)) = true := by
  rw [Bool.or_eq_true, Bool.not_eq_true', List.contains_iff_mem, h, Offends]

theorem constantsFrom_of_makeConstants (hseen : Remembers reserved seen before)
    (h : MakeConstants reserved (before ++ values)) : constantsFrom enum reserved seen values =
      .ok (values.map fun value => ⟨constantName value reserved, value⟩) := by
  induction values generalizing seen before with
  | nil => rfl
  | cons value values ih =>
    have hvalue := mt (offends_iff hseen).2 h.not_offends
    rw [List.append_cons] at h
    simp only [constantsFrom, if_neg hvalue, ih (hseen.concat value) h, List.map_cons]

theorem constantsFrom_of_offends {between after : List String} (hseen : Remembers reserved seen before)
    (h : MakeConstants reserved (before ++ between)) (hvalue : Offends reserved (before ++ between) value) :
    constantsFrom enum reserved seen (between ++ value :: after) =
      .error (.invalidConstant enum value (constantName value reserved)) := by
  induction between generalizing seen before with
  | nil =>
    rw [List.append_nil] at hvalue
    simp only [List.nil_append, constantsFrom, if_pos ((offends_iff hseen).1 hvalue)]
  | cons first between ih =>
    have hfirst := mt (offends_iff hseen).2 h.not_offends
    rw [List.append_cons] at h hvalue
    simp only [List.cons_append, constantsFrom, if_neg hfirst, ih (hseen.concat first) h hvalue]

end EnumDoc

namespace Registry

variable {r : Registry} {c : Config} {type : String}

def registeredValues (r : Registry) (type : String) : List String := (r.snapshot.enums.get? type).getD []

theorem sees_iff : r.sees type = true ↔ r.snapshot.isKnown type = true ∧ type ∉ r.hidden := by
  rw [sees, Bool.and_eq_true, Bool.not_eq_true', ← Bool.not_eq_true, isHidden_iff]

theorem enumDoc_of_unseen (h : ¬ (r.snapshot.isKnown type = true ∧ type ∉ r.hidden)) :
    r.enumDoc c type = .error (.registry (.unknownType type)) := by
  simp only [enumDoc, if_neg (mt sees_iff.1 h)]

theorem enumDoc_of_not_enum (hs : r.snapshot.isKnown type = true ∧ type ∉ r.hidden)
    (hk : (r.describe type).kind ≠ .enum) : r.enumDoc c type = .error (.registry (.notAnEnum type)) := by
  have hvalues : r.enumValues type = .error (.notAnEnum type) := if_neg hk
  simp only [enumDoc, if_pos (sees_iff.2 hs), hvalues]

def constantsDoc (r : Registry) (c : Config) (type : String) : EnumDoc :=
  ⟨c.stripPrefix type, (r.registeredValues type).map fun value => ⟨constantName value c.reservedNames, value⟩⟩

theorem enumDoc_of_enum (hs : r.snapshot.isKnown type = true ∧ type ∉ r.hidden)
    (hk : (r.describe type).kind = .enum) : r.enumDoc c type =
      (EnumDoc.constantsFrom type c.reservedNames [] (r.registeredValues type)).map (⟨c.stripPrefix type, ·⟩) := by
  have hvalues : r.enumValues type = .ok (r.registeredValues type) := if_pos hk
  simp only [enumDoc, if_pos (sees_iff.2 hs), hvalues]
  cases EnumDoc.constantsFrom type c.reservedNames [] (r.registeredValues type) <;> rfl

theorem enumDoc_of_makeConstants (hs : r.snapshot.isKnown type = true ∧ type ∉ r.hidden)
    (hk : (r.describe type).kind = .enum) (h : MakeConstants c.reservedNames (r.registeredValues type)) :
    r.enumDoc c type = .ok (r.constantsDoc c type) := by
  have hall : MakeConstants c.reservedNames ([] ++ r.registeredValues type) := h
  rw [enumDoc_of_enum hs hk, EnumDoc.constantsFrom_of_makeConstants .nil hall]
  rfl

theorem enumDoc_of_offends (hs : r.snapshot.isKnown type = true ∧ type ∉ r.hidden)
    (hk : (r.describe type).kind = .enum) {after : List String}
    (hvalues : r.registeredValues type = before ++ value :: after) (hbefore : MakeConstants c.reservedNames before)
    (h : Offends c.reservedNames before value) :
    r.enumDoc c type = .error (.invalidConstant type value (constantName value c.reservedNames)) := by
  rw [enumDoc_of_enum hs hk, hvalues, EnumDoc.constantsFrom_of_offends .nil hbefore h]
  rfl

/-- How documenting a type ends, and why. -/
inductive EnumDocEnds (r : Registry) (c : Config) (type : String) : Except GenerateError EnumDoc → Prop
  | unseen (h : ¬ (r.snapshot.isKnown type = true ∧ type ∉ r.hidden)) :
      EnumDocEnds r c type (.error (.registry (.unknownType type)))
  | other (hs : r.snapshot.isKnown type = true ∧ type ∉ r.hidden) (hk : (r.describe type).kind ≠ .enum) :
      EnumDocEnds r c type (.error (.registry (.notAnEnum type)))
  | offender {before after : List String} {value : String}
      (hs : r.snapshot.isKnown type = true ∧ type ∉ r.hidden) (hk : (r.describe type).kind = .enum)
      (hvalues : r.registeredValues type = before ++ value :: after) (hbefore : MakeConstants c.reservedNames before)
      (h : Offends c.reservedNames before value) :
      EnumDocEnds r c type (.error (.invalidConstant type value (constantName value c.reservedNames)))
  | constants (hs : r.snapshot.isKnown type = true ∧ type ∉ r.hidden) (hk : (r.describe type).kind = .enum)
      (h : MakeConstants c.reservedNames (r.registeredValues type)) :
      EnumDocEnds r c type (.ok (r.constantsDoc c type))

theorem enumDocEnds_enumDoc (r : Registry) (c : Config) (type : String) : r.EnumDocEnds c type (r.enumDoc c type) := by
  by_cases hs : r.snapshot.isKnown type = true ∧ type ∉ r.hidden
  · by_cases hk : (r.describe type).kind = .enum
    · have hnil : MakeConstants c.reservedNames [] := .nil
      rcases makeConstants_or_offends (r.registeredValues type) hnil with
        h | ⟨before, value, after, hvalues, hbefore, h⟩
      · rw [enumDoc_of_makeConstants hs hk h]
        exact .constants hs hk h
      · rw [enumDoc_of_offends hs hk hvalues hbefore h]
        exact .offender hs hk hvalues hbefore h
    · rw [enumDoc_of_not_enum hs hk]
      exact .other hs hk
  · rw [enumDoc_of_unseen hs]
    exact .unseen hs

theorem exists_enumDoc_iff (hs : r.snapshot.isKnown type = true ∧ type ∉ r.hidden)
    (hk : (r.describe type).kind = .enum) : (∃ doc, r.enumDoc c type = .ok doc) ↔
      MakeConstants c.reservedNames (r.registeredValues type) := by
  have hends := enumDocEnds_enumDoc r c type
  constructor
  · intro ⟨doc, hdoc⟩
    rw [hdoc] at hends
    cases hends with
    | constants _ _ h => exact h
  · intro h
    exact ⟨_, enumDoc_of_makeConstants hs hk h⟩

theorem eq_constantsDoc {doc : EnumDoc} (h : r.enumDoc c type = .ok doc) : doc = r.constantsDoc c type := by
  have hends := enumDocEnds_enumDoc r c type
  rw [h] at hends
  cases hends with
  | constants => rfl

theorem enumDoc_eq_error_iff (hs : r.snapshot.isKnown type = true ∧ type ∉ r.hidden)
    (hk : (r.describe type).kind = .enum) {e : GenerateError} : r.enumDoc c type = .error e ↔
      ∃ before value after, r.registeredValues type = before ++ value :: after ∧
        MakeConstants c.reservedNames before ∧ Offends c.reservedNames before value ∧
        e = .invalidConstant type value (constantName value c.reservedNames) := by
  have hends := enumDocEnds_enumDoc r c type
  constructor
  · intro he
    rw [he] at hends
    cases hends with
    | unseen h => exact absurd hs h
    | other _ h => exact absurd hk h
    | offender _ _ hvalues hbefore h => exact ⟨_, _, _, hvalues, hbefore, h, rfl⟩
  · rintro ⟨before, value, after, hvalues, hbefore, h, rfl⟩
    exact enumDoc_of_offends hs hk hvalues hbefore h

theorem enumDoc_eq_unknownType_iff {name : String} : r.enumDoc c type = .error (.registry (.unknownType name)) ↔
    name = type ∧ ¬ (r.snapshot.isKnown type = true ∧ type ∉ r.hidden) := by
  have hends := enumDocEnds_enumDoc r c type
  constructor
  · intro he
    rw [he] at hends
    cases hends with
    | unseen h => exact ⟨rfl, h⟩
  · rintro ⟨rfl, h⟩
    exact enumDoc_of_unseen h

theorem enumDoc_eq_notAnEnum_iff {name : String} : r.enumDoc c type = .error (.registry (.notAnEnum name)) ↔
    name = type ∧ (r.snapshot.isKnown type = true ∧ type ∉ r.hidden) ∧ (r.describe type).kind ≠ .enum := by
  have hends := enumDocEnds_enumDoc r c type
  constructor
  · intro he
    rw [he] at hends
    cases hends with
    | other hs hk => exact ⟨rfl, hs, hk⟩
  · rintro ⟨rfl, hs, hk⟩
    exact enumDoc_of_not_enum hs hk

/-- A visible enum has a document exactly when its values make constants, one for each value and in their order, and
otherwise the first value that offends those before it is reported; a type that cannot be seen and one that is no
enum are reported as such; and where no replacement is reserved itself, no constant has a reserved name. -/
theorem enumDoc_outcomes (r : Registry) (c : Config) (type : String) :
    (r.snapshot.isKnown type = true ∧ type ∉ r.hidden → (r.describe type).kind = .enum →
      ((∃ doc, r.enumDoc c type = .ok doc) ↔ MakeConstants c.reservedNames (r.registeredValues type)) ∧
      (∀ doc, r.enumDoc c type = .ok doc → doc.constants =
        (r.registeredValues type).map fun value => ⟨constantName value c.reservedNames, value⟩) ∧
      ∀ e, r.enumDoc c type = .error e ↔ ∃ before value after,
        r.registeredValues type = before ++ value :: after ∧ MakeConstants c.reservedNames before ∧
        Offends c.reservedNames before value ∧
        e = .invalidConstant type value (constantName value c.reservedNames)) ∧
    (∀ name, r.enumDoc c type = .error (.registry (.unknownType name)) ↔
      name = type ∧ ¬ (r.snapshot.isKnown type = true ∧ type ∉ r.hidden)) ∧
    (∀ name, r.enumDoc c type = .error (.registry (.notAnEnum name)) ↔
      name = type ∧ (r.snapshot.isKnown type = true ∧ type ∉ r.hidden) ∧ (r.describe type).kind ≠ .enum) ∧
    ((∀ e ∈ c.reservedNames.entries, e.2 ∉ c.reservedNames.keys) → ∀ doc, r.enumDoc c type = .ok doc →
      ∀ k ∈ doc.constants, k.name ∉ c.reservedNames.keys) ∧
    ∀ e ∈ Config.default.reservedNames.entries, e.2 ∉ Config.default.reservedNames.keys := by
  refine ⟨?enum, fun name => enumDoc_eq_unknownType_iff, fun name => enumDoc_eq_notAnEnum_iff, ?reserved, by decide⟩
  case enum =>
    intro hs hk
    refine ⟨exists_enumDoc_iff hs hk, ?_, fun e => enumDoc_eq_error_iff hs hk⟩
    intro doc hdoc
    rw [eq_constantsDoc hdoc]
    rfl
  case reserved =>
    intro hreserved doc hdoc k hk
    rw [eq_constantsDoc hdoc] at hk
    obtain ⟨value, _, rfl⟩ := List.mem_map.1 hk
    exact constantName_notMem_keys hreserved value

end Registry

end Autodoc
