import Mathlib.Data.List.Induction
import Autodoc.Snapshot
import Autodoc.Proofs.Written

namespace Autodoc.Json

/-- Puts another value where a path leads to, if it leads anywhere. -/
def Value.replaceAt : Value → Path → Value → Value
  | _, [], w => w
  | .list vs, .index i :: path, w =>
    match vs[i]? with
    | some v => .list (vs.set i (v.replaceAt path w))
    | none => .list vs
  | .object ms, .key k :: path, w =>
    match valueAt? k ms with
    | some v => .object (putEntry k (v.replaceAt path w) ms)
    | none => .object ms
  | v, _ :: _, _ => v

/-- The values that have the sort a schema asks for, whatever is inside them. -/
def Schema.Admits : {α : Type} → Schema α → Value → Prop
  | _, .text, v => ∃ s, v = .text s
  | _, .bool, v => ∃ b, v = .bool b
  | _, .word, v => ∃ n : Int, v = .number (.int n) ∧ 0 ≤ n ∧ n ≤ 0xFFFFFFFF
  | _, .nullable s, v => v = .null ∨ s.Admits v
  | _, .list _, v => ∃ vs, v = .list vs
  | _, .table _, v => ∃ ms, v = .object ms
  | _, .choice _, v => (∃ name, v = .text name) ∨ ∃ ms, v = .object ms
  | _, .record _ _ _, v => (∃ ms, v = .object ms) ∨ ∃ vs, v = .list vs

/-- The field of a record that has a name: the first, if there are several. -/
inductive Slots.Named : {α β : Type} → Slots α → String → Schema β → Prop
  | head {α β : Type} {name : String} {required : Bool} {s : Schema β} {set : β → α → α} {rest : Slots α} :
      Named (.cons name required s set rest) name s
  | tail {α β γ : Type} {name other : String} {required : Bool} {t : Schema γ} {set : γ → α → α} {rest : Slots α}
      {s : Schema β} (hne : other ≠ name) (h : Named rest name s) : Named (.cons other required t set rest) name s

inductive Slots.Nth : {α β : Type} → Slots α → Nat → Schema β → Prop
  | head {α β : Type} {name : String} {required : Bool} {s : Schema β} {set : β → α → α} {rest : Slots α} :
      Nth (.cons name required s set rest) 0 s
  | tail {α β γ : Type} {name : String} {required : Bool} {t : Schema γ} {set : γ → α → α} {rest : Slots α}
      {s : Schema β} {i : Nat} (h : Nth rest i s) : Nth (.cons name required t set rest) (i + 1) s

/-- The places of a value to which a schema gives a type: the value itself, and what is in the places of its items,
entries and fields. -/
inductive Schema.Place : {α β : Type} → Schema α → Value → Path → Schema β → Prop
  | here {α : Type} {s : Schema α} {v : Value} : Place s v [] s
  | given {α β : Type} {s : Schema α} {t : Schema β} {v : Value} {step : Segment} {path : Path} (hv : v ≠ .null)
      (h : Place s v (step :: path) t) : Place (.nullable s) v (step :: path) t
  | item {α β : Type} {s : Schema α} {t : Schema β} {vs : List Value} {i : Nat} {v : Value} {path : Path}
      (hi : vs[i]? = some v) (h : Place s v path t) : Place (.list s) (.list vs) (.index i :: path) t
  | entry {α β : Type} {s : Schema α} {t : Schema β} {ms : List (String × Value)} {k : String} {v : Value} {path : Path}
      (hk : valueAt? k ms = some v) (h : Place s v path t) : Place (.table s) (.object ms) (.key k :: path) t
  | member {α β γ : Type} {name : String} {blank : α} {slots : Slots α} {s : Schema β} {t : Schema γ}
      {ms : List (String × Value)} {k : String} {v : Value} {path : Path} (hs : slots.Named k s)
      (hk : valueAt? k ms = some v) (h : Place s v path t) :
      Place (.record name blank slots) (.object ms) (.key k :: path) t
  | field {α β γ : Type} {name : String} {blank : α} {slots : Slots α} {s : Schema β} {t : Schema γ}
      {vs : List Value} {i : Nat} {v : Value} {path : Path} (hs : slots.Nth i s)
      (hi : vs[i]? = some v) (h : Place s v path t) :
      Place (.record name blank slots) (.list vs) (.index i :: path) t

/-- How a path is written: a dot stands for the whole, keys are parted by dots, and positions are in brackets. -/
inductive Path.WrittenAs : Path → String → Prop
  | whole : WrittenAs [] "."
  | key (k : String) : WrittenAs [.key k] k
  | index (i : Nat) : WrittenAs [.index i] ("[" ++ toString i ++ "]")
  | thenKey {path : Path} {text : String} (hne : path ≠ []) (h : WrittenAs path text) (k : String) :
      WrittenAs (path ++ [.key k]) (text ++ "." ++ k)
  | thenIndex {path : Path} {text : String} (hne : path ≠ []) (h : WrittenAs path text) (i : Nat) :
      WrittenAs (path ++ [.index i]) (text ++ "[" ++ toString i ++ "]")

namespace Decoded

variable {α β : Type} {x : Decoded α} {f : α → Decoded β} {step : Segment}

theorem bind_eq_ok_iff {b : β} : (x >>= f) = .ok b ↔ ∃ a, x = .ok a ∧ f a = .ok b := by
  cases x <;> simp [bind, Except.bind]

theorem under_eq_ok_iff {a : α} : under step x = .ok a ↔ x = .ok a := by
  cases x <;> simp [under, Except.mapError]

theorem bind_of_ok {a : α} (h : x = .ok a) : (x >>= f) = f a := by
  rw [h]
  rfl

theorem bind_of_error {e : DecodeError} (h : x = .error e) : (x >>= f) = .error e := by
  rw [h]
  rfl

theorem under_of_error {e : DecodeError} (h : x = .error e) : under step x = .error (e.under step) := by
  rw [h]
  rfl

end Decoded

theorem decodeWord_of_not_admits {w : Value} (h : ¬ Schema.word.Admits w) :
    ∃ problem, decodeWord w = .error ⟨[], problem, none⟩ := by
  unfold decodeWord
  split
  next n => exact ⟨_, if_neg fun hn => h ⟨n, rfl, hn⟩⟩
  next => exact ⟨_, rfl⟩

theorem Schema.ofValue_nullable (s : Schema α) {v : Value} (hv : v ≠ .null) :
    (Schema.nullable s).ofValue v = (s.ofValue v).map some := by
  rw [ofValue]
  exact fun _ _ _ _ => hv

theorem Schema.ofValue_of_not_admits : {α : Type} → (s : Schema α) → {w : Value} → ¬ s.Admits w →
    ∃ problem, s.ofValue w = .error ⟨[], problem, none⟩
  | _, .text, w, h => by
    cases w with
    | text s => exact absurd ⟨s, rfl⟩ h
    | _ => exact ⟨_, rfl⟩
  | _, .bool, w, h => by
    cases w with
    | bool b => exact absurd ⟨b, rfl⟩ h
    | _ => exact ⟨_, rfl⟩
  | _, .word, w, h => decodeWord_of_not_admits h
  | _, .nullable s, w, h => by
    obtain ⟨hnull, hs⟩ := not_or.1 h
    obtain ⟨problem, hproblem⟩ := ofValue_of_not_admits s hs
    refine ⟨problem, ?_⟩
    rw [ofValue_nullable s hnull, hproblem]
    rfl
  | _, .list _, w, h => by
    cases w with
    | list vs => exact absurd ⟨vs, rfl⟩ h
    | _ => exact ⟨_, rfl⟩
  | _, .table _, w, h => by
    cases w with
    | object ms => exact absurd ⟨ms, rfl⟩ h
    | _ => exact ⟨_, rfl⟩
  | _, .choice _, w, h => by
    cases w with
    | text name => exact absurd (.inl ⟨name, rfl⟩) h
    | object ms => exact absurd (.inr ⟨ms, rfl⟩) h
    | _ => exact ⟨_, rfl⟩
  | _, .record _ _ _, w, h => by
    cases w with
    | object ms => exact absurd (.inl ⟨ms, rfl⟩) h
    | list vs => exact absurd (.inr ⟨vs, rfl⟩) h
    | _ => exact ⟨_, rfl⟩

/-- A part `v` of a whole was read, and in place of it the first value that cannot be read makes the whole fail, with
the error of the part. -/
structure Exposes (part : Value → Decoded β) (whole : Value → Decoded α) (step : Segment) (v : Value) : Prop where
  reads : ∃ y, part v = .ok y
  stops : ∀ {w e}, part w = .error e → whole w = .error (e.under step)

section Parts

variable {α β : Type} {part : Value → Decoded β} {v : Value} {k : String}

theorem Exposes.fails {whole : Value → Decoded α} {step : Segment} {w : Value} {path : Path}
    (h : Exposes part whole step v)
    (hw : ∀ y, part v = .ok y → ∃ problem, part w = .error ⟨path, problem, none⟩) :
    ∃ problem, whole w = .error ⟨step :: path, problem, none⟩ := by
  obtain ⟨y, hy⟩ := h.reads
  obtain ⟨problem, hproblem⟩ := hw y hy
  exact ⟨problem, h.stops hproblem⟩

theorem decodeItems_exposes {vs : List Value} {i j : Nat} {xs : List β} (h : decodeItems part i vs = .ok xs)
    (hj : vs[j]? = some v) : Exposes part (fun w => decodeItems part i (vs.set j w)) (.index (i + j)) v := by
  induction vs generalizing i j xs with
  | nil => cases hj
  | cons u vs ih =>
    rw [decodeItems] at h
    obtain ⟨y, hu, h⟩ := Decoded.bind_eq_ok_iff.1 h
    cases j with
    | zero =>
      cases hj
      refine ⟨⟨y, Decoded.under_eq_ok_iff.1 hu⟩, fun hw => ?_⟩
      rw [List.set_cons_zero, decodeItems]
      exact Decoded.bind_of_error (Decoded.under_of_error hw)
    | succ j =>
      obtain ⟨ys, hrest, _⟩ := Decoded.bind_eq_ok_iff.1 h
      obtain ⟨hreads, hstops⟩ := ih hrest hj
      rw [Nat.add_right_comm] at hstops
      refine ⟨hreads, fun hw => ?_⟩
      rw [List.set_cons_succ, decodeItems, Decoded.bind_of_ok hu]
      exact Decoded.bind_of_error (hstops hw)

theorem decodeEntries_exposes {ms : List (String × Value)} {t t' : Table β} (h : decodeEntries part t ms = .ok t')
    (hk : valueAt? k ms = some v) : Exposes part (fun w => decodeEntries part t (putEntry k w ms)) (.key k) v := by
  induction ms generalizing t with
  | nil => cases hk
  | cons m ms ih =>
    obtain ⟨k', u⟩ := m
    rw [decodeEntries] at h
    obtain ⟨y, hu, h⟩ := Decoded.bind_eq_ok_iff.1 h
    rw [valueAt?] at hk
    simp only [putEntry]
    split at hk
    next heq =>
      cases hk
      subst heq
      refine ⟨⟨y, Decoded.under_eq_ok_iff.1 hu⟩, fun hw => ?_⟩
      rw [if_pos rfl, decodeEntries]
      exact Decoded.bind_of_error (Decoded.under_of_error hw)
    next hne =>
      obtain ⟨hreads, hstops⟩ := ih h hk
      refine ⟨hreads, fun hw => ?_⟩
      rw [if_neg hne, decodeEntries, Decoded.bind_of_ok hu]
      exact hstops hw

theorem decodeMembers_exposes {read : String → Value → Option (Decoded (α → α))} {set : β → α → α}
    {ms : List (String × Value)} {x : α} {given : List String} {r : α × List String}
    (hread : ∀ w, read k w = some ((part w).map set)) (h : decodeMembers read x given ms = .ok r)
    (hk : valueAt? k ms = some v) :
    Exposes part (fun w => decodeMembers read x given (putEntry k w ms)) (.key k) v := by
  induction ms generalizing x given with
  | nil => cases hk
  | cons m ms ih =>
    obtain ⟨k', u⟩ := m
    rw [decodeMembers.eq_def] at h
    rw [valueAt?] at hk
    simp only [putEntry]
    split at hk
    next heq =>
      cases hk
      subst heq
      simp only [hread] at h
      obtain ⟨change, hchange, _⟩ := Decoded.bind_eq_ok_iff.1 h
      obtain ⟨y, hy, _⟩ := exists_of_map_eq_ok (Decoded.under_eq_ok_iff.1 hchange)
      refine ⟨⟨y, hy⟩, fun hw => ?_⟩
      simp only [if_pos, decodeMembers, hread, hw]
      rfl
    next hne =>
      simp only [if_neg hne, decodeMembers]
      cases hu : read k' u with
      | none =>
        simp only [hu] at h
        exact ih h hk
      | some d =>
        simp only [hu] at h
        obtain ⟨change, hchange, h⟩ := Decoded.bind_eq_ok_iff.1 h
        simp only [Decoded.bind_of_ok hchange]
        exact ih h hk

theorem Slots.Named.ofMember {slots : Slots α} {s : Schema β} (h : slots.Named k s) :
    ∃ set : β → α → α, ∀ w, slots.ofMember k w = some ((s.ofValue w).map set) := by
  induction h with
  | head => exact ⟨_, fun w => if_pos rfl⟩
  | tail hne _ ih =>
    obtain ⟨set, hset⟩ := ih
    exact ⟨set, fun w => by rw [Slots.ofMember, if_neg hne, hset]⟩

theorem Slots.Nth.ofItems_exposes {slots : Slots α} {s : Schema β} {j : Nat} (hs : slots.Nth j s) {name : String}
    {fields total i : Nat} {x y : α} {vs : List Value} (h : slots.ofItems name fields total i x vs = .ok y)
    (hj : vs[j]? = some v) :
    Exposes s.ofValue (fun w => slots.ofItems name fields total i x (vs.set j w)) (.index (i + j)) v := by
  induction hs generalizing i x vs with
  | head =>
    cases vs with
    | nil => cases hj
    | cons u vs =>
      cases hj
      rw [Slots.ofItems] at h
      obtain ⟨a, hv, _⟩ := Decoded.bind_eq_ok_iff.1 h
      refine ⟨⟨a, Decoded.under_eq_ok_iff.1 hv⟩, fun hw => ?_⟩
      rw [List.set_cons_zero, Slots.ofItems]
      exact Decoded.bind_of_error (Decoded.under_of_error hw)
  | tail hs ih =>
    cases vs with
    | nil => cases hj
    | cons u vs =>
      rw [Slots.ofItems] at h
      obtain ⟨a, hu, h⟩ := Decoded.bind_eq_ok_iff.1 h
      obtain ⟨hreads, hstops⟩ := ih h hj
      rw [Nat.add_right_comm] at hstops
      refine ⟨hreads, fun hw => ?_⟩
      rw [List.set_cons_succ, Slots.ofItems, Decoded.bind_of_ok hu]
      exact hstops hw

end Parts

namespace Value

variable {v w : Value} {path : Path}

theorem replaceAt_index {vs : List Value} {i : Nat} (hi : vs[i]? = some v) :
    (list vs).replaceAt (.index i :: path) w = list (vs.set i (v.replaceAt path w)) := by
  rw [replaceAt, hi]

theorem replaceAt_key {ms : List (String × Value)} {k : String} (hk : valueAt? k ms = some v) :
    (object ms).replaceAt (.key k :: path) w = object (putEntry k (v.replaceAt path w) ms) := by
  rw [replaceAt, hk]

theorem replaceAt_ne_null (hv : v ≠ null) (step : Segment) : v.replaceAt (step :: path) w ≠ null := by
  rw [replaceAt.eq_def]
  grind

end Value

/-- Induction on the way to the place: each part on the way was read, so what fails inside it is the first to fail. -/
theorem Schema.Place.fails {α β : Type} {s : Schema α} {t : Schema β} {v w : Value} {path : Path}
    (h : s.Place v path t) (hw : ¬ t.Admits w) {x : α} (hx : s.ofValue v = .ok x) :
    ∃ problem, s.ofValue (v.replaceAt path w) = .error ⟨path, problem, none⟩ := by
  induction h with
  | here => exact ofValue_of_not_admits _ hw
  | given hv h ih =>
    rw [ofValue_nullable _ hv] at hx
    obtain ⟨y, hy, _⟩ := exists_of_map_eq_ok hx
    obtain ⟨problem, hproblem⟩ := ih hw hy
    refine ⟨problem, ?_⟩
    rw [ofValue_nullable _ (Value.replaceAt_ne_null hv _), hproblem]
    rfl
  | item hi h ih =>
    rw [ofValue] at hx
    have hpart := decodeItems_exposes hx hi
    rw [Nat.zero_add] at hpart
    rw [Value.replaceAt_index hi, ofValue]
    exact hpart.fails fun y hy => ih hw hy
  | entry hk h ih =>
    rw [ofValue] at hx
    rw [Value.replaceAt_key hk, ofValue]
    exact (decodeEntries_exposes hx hk).fails fun y hy => ih hw hy
  | member hs hk h ih =>
    obtain ⟨set, hset⟩ := hs.ofMember
    rw [ofValue] at hx
    obtain ⟨r, hms, _⟩ := Decoded.bind_eq_ok_iff.1 hx
    obtain ⟨problem, hproblem⟩ := (decodeMembers_exposes hset hms hk).fails fun y hy => ih hw hy
    refine ⟨problem, ?_⟩
    rw [Value.replaceAt_key hk, ofValue]
    exact Decoded.bind_of_error hproblem
  | field hs hi h ih =>
    rw [ofValue] at hx
    have hpart := hs.ofItems_exposes hx hi
    rw [Nat.zero_add] at hpart
    rw [Value.replaceAt_index hi, ofValue, List.length_set]
    exact hpart.fails fun y hy => ih hw hy

theorem Path.rest_append (path path' : Path) : rest (path ++ path') = rest path ++ rest path' := by
  induction path with
  | nil => rw [List.nil_append, rest, String.empty_append]
  | cons step path ih => cases step <;> simp only [List.cons_append, rest, ih, String.append_assoc]

theorem Path.text_append {path : Path} (hne : path ≠ []) (path' : Path) :
    text (path ++ path') = text path ++ rest path' := by
  cases path with
  | nil => exact absurd rfl hne
  | cons step path => cases step <;> simp only [List.cons_append, text, rest_append, String.append_assoc]

theorem Path.text_writtenAs {path : Path} (h : .unread ∉ path) : path.WrittenAs path.text := by
  induction path using List.reverseRecOn with
  | nil => exact .whole
  | append_singleton path step ih =>
    rw [List.mem_append, not_or] at h
    by_cases hne : path = []
    · subst hne
      cases step with
      | key k =>
        rw [List.nil_append, text, rest, String.append_empty]
        exact .key k
      | index i =>
        rw [List.nil_append, text, rest, String.append_empty]
        exact .index i
      | unread => exact absurd List.mem_cons_self h.2
    · rw [text_append hne]
      cases step with
      | key k =>
        rw [rest, rest, String.append_empty, ← String.append_assoc]
        exact .thenKey hne (ih h.1) k
      | index i =>
        rw [rest, rest, String.append_empty, ← String.append_assoc, ← String.append_assoc]
        exact .thenIndex hne (ih h.1) i
      | unread => exact absurd List.mem_cons_self h.2

theorem Schema.Place.unread_notMem {α β : Type} {s : Schema α} {t : Schema β} {v : Value} {path : Path}
    (h : s.Place v path t) : .unread ∉ path := by
  induction h with
  | here => exact List.not_mem_nil
  | given _ _ ih => exact ih
  | item _ _ ih => exact List.not_mem_cons_of_ne_of_not_mem nofun ih
  | entry _ _ ih => exact List.not_mem_cons_of_ne_of_not_mem nofun ih
  | member _ _ _ ih => exact List.not_mem_cons_of_ne_of_not_mem nofun ih
  | field _ _ _ ih => exact List.not_mem_cons_of_ne_of_not_mem nofun ih

end Autodoc.Json

namespace Autodoc

open Json

/-- Where a snapshot can be read, a value of another sort in one of its places is an error at the path of the place,
however deep the place is and whatever else stands before it or after it. -/
theorem Snapshot.misfit_reported_in_place {β : Type} {t : Schema β} {v w : Value} {path : Path} {s : Snapshot}
    (hs : Snapshot.schema.ofValue v = .ok s) (hplace : Snapshot.schema.Place v path t) (hw : ¬ t.Admits w) :
    ∃ e, Snapshot.schema.ofValue (v.replaceAt path w) = .error e ∧ e.path = path ∧ path.WrittenAs e.path.text := by
  obtain ⟨problem, hproblem⟩ := hplace.fails hw hs
  exact ⟨_, hproblem, rfl, Path.text_writtenAs hplace.unread_notMem⟩

/-- A document with one operation that has two arguments. -/
def remainderDocument : Value :=
  let argument (name : String) := Value.object
    [("name", .text name), ("flags", .number (.int 19)), ("type", .text "VipsImage"), ("blurb", .text "an operand")]
  .object [("types", .list [.object [("name", .text "VipsOperation"), ("parent", .null)]]),
    ("operations", .object [("remainder", .object [("arguments", .list [argument "left", argument "right"])])]),
    ("lazy_types", .list [.text "VipsToken"])]

theorem Snapshot.misfit_reported_in_place_flags :
    ∃ e, Snapshot.schema.ofValue (remainderDocument.replaceAt
        [.key "operations", .key "remainder", .key "arguments", .index 1, .key "flags"] (.text "19")) = .error e ∧
      e.path.text = "operations.remainder.arguments[1].flags" := by
  have hplace : Snapshot.schema.Place remainderDocument
      [.key "operations", .key "remainder", .key "arguments", .index 1, .key "flags"] Schema.word :=
    .member (.tail (by decide) .head) rfl <| .entry rfl <|
      .member (.tail (by decide) (.tail (by decide) .head)) rfl <| .item rfl <|
        .member (.tail (by decide) .head) rfl .here
  obtain ⟨e, he, hpath, _⟩ := Snapshot.misfit_reported_in_place rfl hplace (w := .text "19") nofun
  exact ⟨e, he, by rw [hpath]; decide +kernel⟩

end Autodoc
