namespace Autodoc

/-- Replaces the value of `k` where it stands, or adds the pair at the end. -/
def putEntry (k : String) (v : α) : List (String × α) → List (String × α)
  | [] => [(k, v)]
  | (k', v') :: rest => if k' = k then (k, v) :: rest else (k', v') :: putEntry k v rest

def valueAt? (k : String) : List (String × α) → Option α
  | [] => none
  | (k', v) :: rest => if k' = k then some v else valueAt? k rest

theorem map_fst_putEntry (k : String) (v : α) (es : List (String × α)) :
    (putEntry k v es).map Prod.fst =
      if k ∈ es.map Prod.fst then es.map Prod.fst else es.map Prod.fst ++ [k] := by
  induction es with
  | nil => rfl
  | cons e rest ih =>
    by_cases h : e.1 = k
    · simp [putEntry, h]
    · have h' : ¬ k = e.1 := fun h' => h h'.symm
      simp only [putEntry, h, if_false, List.map_cons, ih, List.mem_cons, h', false_or]
      split <;> simp

theorem valueAt?_putEntry (k k' : String) (v : α) (es : List (String × α)) :
    valueAt? k' (putEntry k v es) = if k' = k then some v else valueAt? k' es := by
  induction es with
  | nil => simp [putEntry, valueAt?, eq_comm]
  | cons e rest ih =>
    by_cases h : e.1 = k
    · by_cases hk : k' = k
      · simp [putEntry, valueAt?, h, hk]
      · have hk' : ¬ k = k' := fun h' => hk h'.symm
        simp [putEntry, valueAt?, h, hk, hk']
    · by_cases hk : e.1 = k' <;> simp_all [putEntry, valueAt?]

theorem valueAt?_eq_some_iff {k : String} {v : α} {es : List (String × α)}
    (h : (es.map Prod.fst).Nodup) : valueAt? k es = some v ↔ (k, v) ∈ es := by
  induction es with
  | nil => simp [valueAt?]
  | cons e rest ih =>
    obtain ⟨k', v'⟩ := e
    obtain ⟨hk, hrest⟩ := List.nodup_cons.1 h
    simp only [valueAt?, List.mem_cons, Prod.mk.injEq]
    split
    next he =>
      subst he
      have hn : (k', v) ∉ rest := fun hm => hk (List.mem_map.2 ⟨_, hm, rfl⟩)
      simp [hn, eq_comm]
    next he =>
      have he' : ¬ k = k' := fun he' => he he'.symm
      simp [he', ih hrest]

theorem nodup_putEntry {k : String} {v : α} {es : List (String × α)}
    (h : (es.map Prod.fst).Nodup) : ((putEntry k v es).map Prod.fst).Nodup := by
  rw [map_fst_putEntry]
  split
  · exact h
  · rename_i hk
    rw [List.nodup_append]
    refine ⟨h, by simp, ?_⟩
    intro a ha b hb he
    simp only [List.mem_singleton] at hb
    exact hk (hb ▸ he ▸ ha)

structure Table (α : Type) where
  entries : List (String × α)
  distinct : (entries.map Prod.fst).Nodup

namespace Table

def empty : Table α := ⟨[], by simp⟩

instance : EmptyCollection (Table α) := ⟨empty⟩
instance : Inhabited (Table α) := ⟨empty⟩

@[ext] theorem ext {s t : Table α} (h : s.entries = t.entries) : s = t := by
  cases s; cases t; cases h; rfl

def keys (t : Table α) : List String := t.entries.map Prod.fst

def get? (t : Table α) (k : String) : Option α := valueAt? k t.entries

def insert (t : Table α) (k : String) (v : α) : Table α :=
  ⟨putEntry k v t.entries, nodup_putEntry t.distinct⟩

theorem get?_insert (t : Table α) (k k' : String) (v : α) :
    (t.insert k v).get? k' = if k' = k then some v else t.get? k' :=
  valueAt?_putEntry ..

theorem get?_eq_some_iff {t : Table α} {k : String} {v : α} :
    t.get? k = some v ↔ (k, v) ∈ t.entries :=
  valueAt?_eq_some_iff t.distinct

theorem get?_congr {s t : Table α} (h : s.entries.Perm t.entries) (k : String) :
    s.get? k = t.get? k := by
  apply Option.ext
  intro v
  rw [get?_eq_some_iff, get?_eq_some_iff, h.mem_iff]

def insertAll (t : Table α) (es : List (String × α)) : Table α :=
  es.foldl (fun t e => t.insert e.1 e.2) t

def ofList (es : List (String × α)) : Table α := insertAll empty es

/-- The later table wins; keys keep their first place. -/
def merge (s t : Table α) : Table α := s.insertAll t.entries

end Table

end Autodoc
