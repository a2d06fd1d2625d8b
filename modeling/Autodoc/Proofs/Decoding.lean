import Autodoc.Config
import Autodoc.Snapshot
import Autodoc.Proofs.Skimming

namespace Autodoc.Json

/-- A reader of a text and one of a value both fail, or have the same result where the text is read up to `r`. -/
inductive Agrees (x : Scan α) (y : Decoded α) (r : List Char) : Prop
  | ok (a : α) (hx : x = .ok (a, r)) (hy : y = .ok a)
  | error (e : Fault) (e' : DecodeError) (hx : x = .error e) (hy : y = .error e')

namespace Agrees

variable {x : Scan α} {y : Decoded α} {r : List Char}

theorem map (h : Agrees x y r) (f : α → β) : Agrees (x.map fun (a, r) => (f a, r)) (y.map f) r := by
  cases h with
  | ok a hx hy =>
    subst hx hy
    exact .ok (f a) rfl rfl
  | error e e' hx hy =>
    subst hx hy
    exact .error e e' rfl rfl

theorem tail {c : Char} (h : Agrees x y (c :: r)) : Agrees (x.map fun (a, r) => (a, r.tail)) y r := by
  cases h with
  | ok a hx hy =>
    subst hx hy
    exact .ok a rfl rfl
  | error e e' hx hy =>
    subst hx hy
    exact .error e e' rfl rfl

theorem under (h : Agrees x y r) (k : Segment) : Agrees (Scan.under k x) (Decoded.under k y) r := by
  cases h with
  | ok a hx hy =>
    subst hx hy
    exact .ok a rfl rfl
  | error e e' hx hy =>
    subst hx hy
    exact .error (e.under k) (e'.under k) rfl rfl

end Agrees

variable {Reads : List Char → Value → List Char → Prop} {c : Char} {s t r : List Char} {v : Value}

theorem scanText_agrees (hs : skipBlanks s = c :: t) (h : Spells Reads c t v r) :
    Agrees (scanText .text s) (Schema.text.ofValue v) r := by
  rw [scanText, hs]
  split
  next heq =>
    cases heq
    cases h with
    | text hx => exact .ok _ hx rfl
    | number hc _ => cases hc
  next hne =>
    cases h with
    | text hx => exact absurd rfl (hne _)
    | _ => exact .error _ _ rfl rfl

theorem scanBool_agrees (hs : skipBlanks s = c :: t) (h : Spells Reads c t v r) :
    Agrees (scanBool s) (Schema.bool.ofValue v) r := by
  rw [scanBool, hs]
  split
  next heq =>
    cases heq
    cases h with
    | yes hr =>
      rw [hr]
      exact .ok true rfl rfl
    | number hc _ => cases hc
  next heq =>
    cases heq
    cases h with
    | no hr =>
      rw [hr]
      exact .ok false rfl rfl
    | number hc _ => cases hc
  next hyes hno =>
    cases h with
    | yes hr => exact absurd rfl (hyes _)
    | no hr => exact absurd rfl (hno _)
    | _ => exact .error _ _ rfl rfl

theorem wordOfNumber_agrees (n : Number) : Agrees (wordOfNumber n r) (decodeWord (.number n)) r := by
  cases n with
  | float x => exact .error _ _ rfl rfl
  | int n =>
    rw [wordOfNumber, decodeWord]
    split
    · exact .ok _ rfl rfl
    · exact .error _ _ rfl rfl

theorem scanWord32_agrees (hs : skipBlanks s = c :: t) (h : Spells Reads c t v r) :
    Agrees (scanWord32 s) (decodeWord v) r := by
  rw [scanWord32, hs]
  split
  next heq =>
    cases heq
    cases h with
    | negative hn =>
      simp only [hn]
      exact wordOfNumber_agrees _
    | number hc _ => cases hc
  next hne heq =>
    cases heq
    cases h with
    | negative hn => exact absurd rfl hne
    | number hc hn =>
      simp only [if_pos hc, hn]
      exact wordOfNumber_agrees _
    | _ => exact .error _ _ rfl rfl
  next heq => cases heq

theorem scanNull_agrees (hs : skipBlanks s = c :: t) (h : Spells Reads c t v r) :
    (v = .null ∧ scanNull s = .ok r) ∨ (v ≠ .null ∧ ∃ e, scanNull s = .error e) := by
  rw [scanNull, hs]
  split
  next heq =>
    cases heq
    cases h with
    | null hr => exact .inl ⟨rfl, hr⟩
    | number hc _ => cases hc
  next hne =>
    cases h with
    | null hr => exact absurd rfl (hne _)
    | _ => exact .inr ⟨nofun, _, rfl⟩

theorem scanVariant_agrees (variants : List (String × α)) {name : String} (hs : skipBlanks s = '"' :: t)
    (hname : scanString [] t = .ok (name, r)) :
    (∃ x, scanVariant variants s = .ok ((name, x), r) ∧ decodeVariant variants name = .ok x) ∨
      ∃ e e', scanVariant variants s = .error e ∧ decodeVariant variants name = .error e' := by
  simp only [scanVariant, scanText, hs, hname, decodeVariant]
  cases variants.lookup name with
  | some x => exact .inl ⟨x, rfl, rfl⟩
  | none => exact .inr ⟨_, _, rfl, rfl⟩

theorem scanChoice_agrees_object {depth : Nat} (variants : List (String × α)) {ms : List (String × Value)}
    (hs : skipBlanks s = '{' :: t) (h : Members (Written depth) true t ms r) :
    Agrees (scanChoice variants s) (decodeChoice variants (.object ms)) r := by
  rw [scanChoice, hs]
  cases h with
  | nil hend =>
    simp only [scanVariant, scanText, hend]
    exact .error _ _ rfl rfl
  | @cons _ k _ _ _ _ z _ v _ ht hk hw hv hrest =>
    obtain ⟨_, c, u, hu, hspells⟩ := hv.exists_spells
    cases ht with
    | first ht =>
      have hnull := scanNull_agrees hu hspells
      rcases scanVariant_agrees variants ht hk with ⟨x, hscan, hdecode⟩ | ⟨e, e', hscan, hdecode⟩
      · simp only [hscan, hw]
        rcases hnull with ⟨rfl, hnull⟩ | ⟨hne, e, hnull⟩
        · simp only [hnull, Except.mapError]
          cases hrest with
          | nil hend =>
            simp only [hend, decodeChoice, hdecode]
            exact .ok x rfl rfl
          | cons hnext _ _ _ _ =>
            cases hnext with
            | next hcomma _ =>
              simp only [hcomma]
              exact .error _ _ rfl rfl
        · simp only [hnull, Except.mapError]
          cases hrest with
          | nil hend =>
            simp only [decodeChoice, hdecode]
            cases v with
            | null => exact absurd rfl hne
            | _ => exact .error _ _ rfl rfl
          | cons => exact .error _ _ rfl rfl
      · simp only [hscan]
        cases hrest with
        | nil hend =>
          simp only [decodeChoice, hdecode]
          exact .error e e' rfl rfl
        | cons => exact .error _ _ rfl rfl

theorem scanChoice_agrees {depth : Nat} (variants : List (String × α)) (hs : skipBlanks s = c :: t)
    (h : Spells (Written depth) c t v r) : Agrees (scanChoice variants s) (decodeChoice variants v) r := by
  cases h with
  | object hms => exact scanChoice_agrees_object variants hs hms
  | text hx =>
    rw [scanChoice, hs, decodeChoice]
    have hquote : skipBlanks ('"' :: t) = '"' :: t := rfl
    rcases scanVariant_agrees variants hquote hx with ⟨x, hscan, hdecode⟩ | ⟨e, e', hscan, hdecode⟩
    · simp only [hscan, hdecode]
      exact .ok x rfl rfl
    · simp only [hscan, hdecode]
      exact .error e e' rfl rfl
  | number hc hn =>
    rw [scanChoice, hs]
    split
    next heq => cases heq
    next heq =>
      cases heq
      cases hc
    next heq =>
      cases heq
      cases hc
    next => exact .error _ _ rfl rfl
  | _ =>
    rw [scanChoice, hs]
    exact .error _ _ rfl rfl

theorem scanItems_agrees {read : Nat → List Char → Scan α} {decode : Value → Decoded α} {first : Bool}
    {vs : List Value} {fuel i : Nat}
    (hread : ∀ i t v u, Reads t v u → Agrees (read i t) (Decoded.under (.index i) (decode v)) u)
    (h : Items Reads first s vs r) (hfirst : first = (i == 0)) (hfuel : vs.length < fuel) :
    Agrees (scanItems read fuel i s) (decodeItems decode i vs) (']' :: r) := by
  induction h generalizing fuel i with
  | nil hs =>
    obtain ⟨fuel, rfl⟩ := Nat.exists_eq_add_one_of_ne_zero (Nat.ne_zero_of_lt hfuel)
    exact .ok [] (scanItems_nil hs) rfl
  | cons ht hc hx _ ih =>
    obtain ⟨fuel, rfl⟩ := Nat.exists_eq_add_one_of_ne_zero (Nat.ne_zero_of_lt hfuel)
    subst hfirst
    rw [scanItems_cons ht hc, decodeItems]
    cases hread i _ _ _ hx with
    | error e e' hscan hdecode =>
      rw [hscan, hdecode]
      exact .error e e' rfl rfl
    | ok x hscan hdecode =>
      rw [hscan, hdecode]
      cases ih (i := i + 1) rfl (Nat.lt_of_succ_lt_succ hfuel) with
      | error e e' hscan hdecode => exact .error e e' (by simp only [hscan]) (by simp only [hdecode]; rfl)
      | ok xs hscan hdecode => exact .ok (x :: xs) (by simp only [hscan]) (by simp only [hdecode]; rfl)

theorem scanEntries_agrees {read : List Char → Scan α} {decode : Value → Decoded α} {first : Bool}
    {ms : List (String × Value)} {fuel : Nat} {table : Table α}
    (hread : ∀ t v u, Reads t v u → Agrees (read t) (decode v) u) (h : Members Reads first s ms r)
    (hfuel : ms.length < fuel) :
    Agrees (scanMembers (scanEntry read) fuel first table s) (decodeEntries decode table ms) ('}' :: r) := by
  induction h generalizing fuel table with
  | nil hs =>
    obtain ⟨fuel, rfl⟩ := Nat.exists_eq_add_one_of_ne_zero (Nat.ne_zero_of_lt hfuel)
    exact .ok table (scanMembers_nil hs) rfl
  | @cons _ k _ _ _ _ _ _ _ _ ht hk hw hx _ ih =>
    obtain ⟨fuel, rfl⟩ := Nat.exists_eq_add_one_of_ne_zero (Nat.ne_zero_of_lt hfuel)
    rw [scanMembers_cons ht hk, decodeEntries, scanEntry, hw]
    cases (hread _ _ _ hx).under (.key k) with
    | error e e' hscan hdecode =>
      simp only [hscan, hdecode]
      exact .error e e' rfl rfl
    | ok x hscan hdecode =>
      simp only [hscan, hdecode]
      exact ih (Nat.lt_of_succ_lt_succ hfuel)

theorem scanRecord_nil {read : String → Option (List Char → Scan (α → α))} {fuel : Nat} {first : Bool}
    {p : Partial α} (hs : skipBlanks s = '}' :: r) : scanRecord read (fuel + 1) first p s = .ok (.ok p, '}' :: r) := by
  rw [scanRecord, scanKey_end hs]
  rfl

theorem scanRecord_cons {read : String → Option (List Char → Scan (α → α))} {fuel : Nat} {first : Bool}
    {p : Partial α} {k : String} {u : List Char} (ht : Begins first s ('"' :: t))
    (hk : scanString [] t = .ok (k, u)) : scanRecord read (fuel + 1) first p s =
      match scanMember read k p u with
      | .error e => .error e
      | .ok (.error problem, r) => .ok (.error problem, r)
      | .ok (.ok p, r) => scanRecord read fuel false p r := by
  rw [scanRecord, scanKey_begins ht, hk]
  rfl

/-- The fields that two readers know are the same, and they agree on each. -/
def AgreeOnFields (depth : Nat) (read : String → Option (List Char → Scan (α → α)))
    (decode : String → Value → Option (Decoded (α → α))) : Prop :=
  ∀ k t v u, Written depth t v u → (read k = none ∧ decode k v = none) ∨
    ∃ f y, read k = some f ∧ decode k v = some y ∧ Agrees (f t) y u

/-- No field comes again where no key does, so a record is never ended early. -/
theorem scanRecord_agrees {depth : Nat} {read : String → Option (List Char → Scan (α → α))}
    {decode : String → Value → Option (Decoded (α → α))} (hread : AgreeOnFields depth read decode) {first : Bool}
    {ms : List (String × Value)} (h : Members (Written depth) first s ms r) {x : α} {given : List String}
    (hkeys : (ms.map Prod.fst).Nodup) (hgiven : ∀ k ∈ ms.map Prod.fst, k ∉ given) {fuel : Nat}
    (hfuel : ms.length < fuel) : Agrees (scanRecord read fuel first ⟨x, given⟩ s)
      ((decodeMembers decode x given ms).map fun (x, given) => .ok ⟨x, given⟩) ('}' :: r) := by
  induction h generalizing fuel x given with
  | nil hs =>
    obtain ⟨fuel, rfl⟩ := Nat.exists_eq_add_one_of_ne_zero (Nat.ne_zero_of_lt hfuel)
    exact .ok _ (scanRecord_nil hs) rfl
  | @cons _ k _ _ _ _ _ _ _ _ ht hk hw hv _ ih =>
    obtain ⟨fuel, rfl⟩ := Nat.exists_eq_add_one_of_ne_zero (Nat.ne_zero_of_lt hfuel)
    obtain ⟨hnew, hkeys⟩ := List.nodup_cons.1 hkeys
    have hfuel := Nat.lt_of_succ_lt_succ hfuel
    rw [scanRecord_cons ht hk, decodeMembers, scanMember]
    rcases hread k _ _ _ hv with ⟨hscan, hdecode⟩ | ⟨f, y, hscan, hdecode, hagrees⟩
    · simp only [hscan, hdecode, hw, skimValue_of_scanWritten hv.read]
      exact ih hkeys (fun k' hk' => hgiven k' (List.mem_cons_of_mem _ hk')) hfuel
    · -- no field is given twice where no key comes again
      have hfresh : given.contains k = false := by
        rw [← Bool.not_eq_true, List.contains_iff_mem]
        exact hgiven k List.mem_cons_self
      simp only [hscan, hdecode, hw, hfresh]
      cases hagrees.under (.key k) with
      | error e e' hx hy =>
        simp only [hx, hy]
        exact .error e e' rfl rfl
      | ok set hx hy =>
        simp only [hx, hy]
        refine ih hkeys (fun k' hk' hmem => ?_) hfuel
        rcases List.mem_cons.1 hmem with rfl | hmem
        · exact hnew hk'
        · exact hgiven k' (List.mem_cons_of_mem _ hk') hmem

def closeItems (x : Scan (Except Problem α)) : Scan α :=
  match x with
  | .error e => .error e
  | .ok (.error problem, r) => .error ⟨[], problem, afterEnd ']' r, 0⟩
  | .ok (.ok x, r) => (scanListEnd r).map (x, ·)

theorem skipBlanks_of_scanListEnd (h : scanListEnd s = .ok r) : skipBlanks s = ']' :: r := by
  rw [scanListEnd] at h
  split at h
  next => cases h
  next hs =>
    cases h
    exact hs
  next => split at h <;> cases h
  next => cases h

theorem no_items_agree {depth : Nat} {name : String} {fields total i : Nat} {x : α} {vs : List Value}
    (h : Items (Written depth) (i == 0) s vs r) :
    Agrees (closeItems (.ok (.ok x, s))) (Slots.nil.ofItems name fields total i x vs) r := by
  rw [closeItems]
  cases hend : scanListEnd s with
  | error e =>
    cases h with
    | nil hs =>
      simp only [scanListEnd, hs] at hend
      cases hend
    | cons => exact .error _ _ rfl rfl
  | ok u =>
    have hs := skipBlanks_of_scanListEnd hend
    cases h with
    | nil hs' =>
      cases hs.symm.trans hs'
      exact .ok x rfl rfl
    | cons ht hc _ _ =>
      generalize (i == 0) = first at ht
      cases ht with
      | first ht =>
        cases hs.symm.trans ht
        exact absurd rfl hc
      | next hcomma _ => cases hs.symm.trans hcomma

theorem scanNextItem_end {first : Bool} (hs : skipBlanks s = ']' :: r) :
    scanNextItem first s = .ok (none, ']' :: r) := by
  simp only [scanNextItem, hs]

theorem scanNextItem_begins {first : Bool} (ht : Begins first s (c :: t)) (hc : c ≠ ']') :
    scanNextItem first s = .ok (some (c :: t), c :: t) := by
  rw [scanNextItem]
  cases ht with
  | first hs =>
    split
    next hnil => cases hnil.symm.trans hs
    next hend =>
      cases hend.symm.trans hs
      exact absurd rfl hc
    next hnext =>
      cases hnext.symm.trans hs
      rfl
  | next hs ht =>
    split
    next hnil => cases hnil.symm.trans hs
    next hend => cases hend.symm.trans hs
    next hnext =>
      cases hnext.symm.trans hs
      rw [if_neg Bool.false_ne_true, if_pos rfl]
      split
      next hnil => cases hnil.symm.trans ht
      next hend =>
        cases hend.symm.trans ht
        exact absurd rfl hc
      next => rw [ht]

/-- A schema decodes what is written at some depth as the value that is written. -/
def AgreesOn (depth : Nat) (schema : Schema α) : Prop :=
  ∀ s v r, Written depth s v r → Agrees (schema.ofText s) (schema.ofValue v) r

theorem nullable_agrees {schema : Schema α} (hs : skipBlanks s = c :: t) (h : Spells Reads c t v r)
    (hread : Agrees (schema.ofText (skipBlanks s)) (schema.ofValue v) r) :
    Agrees (schema.nullable.ofText s) (schema.nullable.ofValue v) r := by
  rw [hs] at hread
  rw [Schema.ofText, hs]
  split
  next heq =>
    cases heq
    cases h with
    | null hr =>
      rw [hr, Schema.ofValue]
      exact .ok none rfl rfl
    | number hc _ => cases hc
  next hne =>
    cases h with
    | null hr => exact absurd rfl (hne _)
    | _ => exact hread.map some

theorem list_agrees {depth : Nat} {schema : Schema α} (hread : AgreesOn depth schema) (hs : skipBlanks s = c :: t)
    (h : Spells (Written depth) c t v r) : Agrees (schema.list.ofText s) (schema.list.ofValue v) r := by
  rw [Schema.ofText, hs]
  split
  next heq =>
    cases heq
    cases h with
    | @list _ _ vs hvs =>
      have hlength := hvs.length fun _ _ _ hv => hv.length
      have hitems : Agrees (scanItems (fun i s => Scan.under (.index i) (schema.ofText s)) (t.length + 1) 0 t)
          (decodeItems schema.ofValue 0 vs) (']' :: r) :=
        scanItems_agrees (fun i t v u hv => (hread t v u hv).under (.index i)) hvs rfl (by omega)
      exact hitems.tail
    | number hc _ => cases hc
  next hne =>
    cases h with
    | list hvs => exact absurd rfl (hne _)
    | _ => exact .error _ _ rfl rfl

theorem table_agrees {depth : Nat} {schema : Schema α} (hread : AgreesOn depth schema) (hs : skipBlanks s = c :: t)
    (h : Spells (Written depth) c t v r) : Agrees (schema.table.ofText s) (schema.table.ofValue v) r := by
  rw [Schema.ofText, hs]
  split
  next heq =>
    cases heq
    cases h with
    | @object _ _ ms hms =>
      have hlength := hms.length fun _ _ _ hv => hv.length
      have hentries : Agrees (scanMembers (scanEntry schema.ofText) (t.length + 1) true {} t)
          (decodeEntries schema.ofValue {} ms) ('}' :: r) := scanEntries_agrees hread hms (by omega)
      exact hentries.tail
    | number hc _ => cases hc
  next hne =>
    cases h with
    | object hms => exact absurd rfl (hne _)
    | _ => exact .error _ _ rfl rfl

def closeRecord (slots : Slots α) (x : Scan (Except Problem (Partial α))) : Scan α :=
  match x with
  | .error e => .error e
  | .ok (.error problem, r) => .error ⟨[], problem, afterEnd '}' r, 0⟩
  | .ok (.ok p, r) =>
    match slots.missing? p.given with
    | none => .ok (p.value, r.tail)
    | some field => .error ⟨[], .missingField field, afterEnd '}' r, 0⟩

theorem fields_agree {depth : Nat} {blank : α} {slots : Slots α} {ms : List (String × Value)}
    (hfields : AgreeOnFields depth slots.ofMemberText slots.ofMember) (h : Members (Written depth) true t ms r)
    (hkeys : (ms.map Prod.fst).Nodup) :
    Agrees (closeRecord slots (scanRecord slots.ofMemberText (t.length + 1) true ⟨blank, []⟩ t))
      ((decodeMembers slots.ofMember blank [] ms).bind fun (x, given) =>
        match slots.missing? given with
        | none => .ok x
        | some name => Decoded.fail (.missingField name)) r := by
  have hlength := h.length fun _ _ _ hv => hv.length
  have hfuel : ms.length < t.length + 1 := by omega
  have hrecord := scanRecord_agrees hfields h hkeys (x := blank) (fun _ _ => List.not_mem_nil) hfuel
  cases hdecode : decodeMembers slots.ofMember blank [] ms with
  | error e' =>
    rw [hdecode] at hrecord
    cases hrecord with
    | ok a hx hy => cases hy
    | error e e' hx hy =>
      rw [hx]
      exact .error _ _ rfl rfl
  | ok found =>
    rw [hdecode] at hrecord
    cases hrecord with
    | error e e' hx hy => cases hy
    | ok a hx hy =>
      cases hy
      simp only [hx, closeRecord, Except.bind]
      cases slots.missing? found.2 with
      | none => exact .ok _ rfl rfl
      | some name => exact .error _ _ rfl rfl

theorem record_agrees {depth : Nat} {name : String} {blank : α} {slots : Slots α}
    (hfields : AgreeOnFields depth slots.ofMemberText slots.ofMember)
    (hitems : ∀ s vs r, Items (Written depth) true s vs r →
      Agrees (closeItems (slots.ofItemsText name slots.size 0 blank s))
        (slots.ofItems name slots.size vs.length 0 blank vs) r)
    (hs : skipBlanks s = c :: t) (hd : v.DistinctKeys) (h : Spells (Written depth) c t v r) :
    Agrees ((Schema.record name blank slots).ofText s) ((Schema.record name blank slots).ofValue v) r := by
  rw [Schema.ofText, hs]
  split
  next heq =>
    cases heq
    cases h with
    | list hvs => exact hitems _ _ _ hvs
    | number hc _ => cases hc
  next heq =>
    cases heq
    cases h with
    | object hms =>
      cases hd with
      | object hkeys _ =>
        rw [Schema.ofValue]
        exact fields_agree hfields hms hkeys
    | number hc _ => cases hc
  next hlist hobject =>
    cases h with
    | list hvs => exact absurd rfl (hlist _)
    | object hms => exact absurd rfl (hobject _)
    | _ => exact .error _ _ rfl rfl

-- Records hold schemas in their slots, so schemas and slots are taken apart together. The depth is any: a part of a
-- value is written at a smaller one than the value.
mutual

theorem Schema.agrees : {α : Type} → (schema : Schema α) → ∀ depth, AgreesOn depth schema
  | _, .text, depth => fun s v r h => by
    obtain ⟨d, c, t, hs, hspells⟩ := h.exists_spells
    rw [Schema.ofText]
    exact scanText_agrees hs hspells
  | _, .bool, depth => fun s v r h => by
    obtain ⟨d, c, t, hs, hspells⟩ := h.exists_spells
    rw [Schema.ofText]
    exact scanBool_agrees hs hspells
  | _, .word, depth => fun s v r h => by
    obtain ⟨d, c, t, hs, hspells⟩ := h.exists_spells
    rw [Schema.ofText, Schema.ofValue]
    exact scanWord32_agrees hs hspells
  | _, .choice variants, depth => fun s v r h => by
    obtain ⟨d, c, t, hs, hspells⟩ := h.exists_spells
    rw [Schema.ofText, Schema.ofValue]
    exact scanChoice_agrees variants hs hspells
  | _, .nullable schema, depth => fun s v r h => by
    have hread := schema.agrees depth _ v r h.skipBlanks
    obtain ⟨d, c, t, hs, hspells⟩ := h.exists_spells
    exact nullable_agrees hs hspells hread
  | _, .list schema, depth => fun s v r h => by
    obtain ⟨d, c, t, hs, hspells⟩ := h.exists_spells
    exact list_agrees (schema.agrees d) hs hspells
  | _, .table schema, depth => fun s v r h => by
    obtain ⟨d, c, t, hs, hspells⟩ := h.exists_spells
    exact table_agrees (schema.agrees d) hs hspells
  | _, .record name blank slots, depth => fun s v r h => by
    obtain ⟨d, c, t, hs, hspells⟩ := h.exists_spells
    exact record_agrees (slots.agree_fields d) (fun s vs r hvs => slots.agree_items hvs) hs h.distinct hspells

theorem Slots.agree_fields : {α : Type} → (slots : Slots α) → ∀ depth,
    AgreeOnFields depth slots.ofMemberText slots.ofMember
  | _, .nil, depth => fun _ _ _ _ _ => .inl ⟨rfl, rfl⟩
  | _, .cons name _ schema set rest, depth => by
    intro k t v u h
    rw [Slots.ofMemberText, Slots.ofMember]
    split
    · exact .inr ⟨_, _, rfl, rfl, (schema.agrees depth t v u h).map set⟩
    · exact rest.agree_fields depth k t v u h

theorem Slots.agree_items : {α : Type} → (slots : Slots α) → ∀ {name fields total i x depth s vs r},
    Items (Written depth) (i == 0) s vs r →
      Agrees (closeItems (slots.ofItemsText name fields i x s)) (slots.ofItems name fields total i x vs) r
  | _, .nil, name, fields, total, i, x, depth, s, vs, r, h => no_items_agree h
  | _, .cons _ required schema set rest, name, fields, total, i, x, depth, s, vs, r, h => by
    rw [Slots.ofItemsText]
    cases h with
    | nil hs =>
      have hend : Items (Written depth) (i + 1 == 0) (']' :: r) [] r := .nil rfl
      simp only [scanNextItem_end hs, Slots.ofItems]
      split
      · exact .error _ _ rfl rfl
      · exact rest.agree_items hend
    | cons ht hc hx hxs =>
      simp only [scanNextItem_begins ht hc, Slots.ofItems]
      cases (schema.agrees depth _ _ _ hx).under (.index i) with
      | error e e' hscan hdecode =>
        simp only [hscan, hdecode]
        exact .error _ _ rfl rfl
      | ok y hscan hdecode =>
        simp only [hscan, hdecode]
        exact rest.agree_items (i := i + 1) hxs

end

theorem Schema.decodeText_eq_ok_iff (schema : Schema α) {text : String} (h : Written depth text.toList v r) (x : α) :
    schema.decodeText text = .ok x ↔ schema.ofValue v = .ok x := by
  rw [Schema.decodeText]
  cases schema.agrees depth _ _ _ h with
  | ok a hx hy => simp only [hx, hy]
  | error e e' hx hy => simp only [hx, hy, reduceCtorEq]

/-- A snapshot and a configuration are decoded from a text as from the value that it spells, with one result, where no
object has a key twice. -/
theorem decodeText_agrees {text : String} {v : Value} (h : Value.ofText text = .ok v) (hkeys : RepeatsNoKey text) :
    (∀ s, Snapshot.schema.decodeText text = .ok s ↔ Snapshot.schema.ofValue v = .ok s) ∧
    ∀ c, Config.schema.decodeText text = .ok c ↔ Config.schema.ofValue v = .ok c := by
  obtain ⟨r, hwritten⟩ := written_of_ofText h hkeys
  exact ⟨Snapshot.schema.decodeText_eq_ok_iff hwritten, Config.schema.decodeText_eq_ok_iff hwritten⟩

/-- A type that is written as a list, a name with an escape and a member that nobody asks for. -/
def lateTypeText : String :=
  "\x7b\"types\": [[\"VipsA\", null]], \"lazy_types\": [\"Vips\\u0041\"], \"note\": \x7b\"seen\": [true]\x7d\x7d"

def lateTypeValue : Value :=
  .object [("types", .list [.list [.text "VipsA", .null]]), ("lazy_types", .list [.text "VipsA"]),
    ("note", .object [("seen", .list [.bool true])])]

theorem distinctKeys_lateType : lateTypeValue.DistinctKeys := by
  have htype : (Value.list [.text "VipsA", .null]).DistinctKeys :=
    .list (List.forall_mem_cons.2 ⟨.text, List.forall_mem_singleton.2 .null⟩)
  have hnote : (Value.object [("seen", .list [.bool true])]).DistinctKeys :=
    .object (by decide) (List.forall_mem_singleton.2 (.list (List.forall_mem_singleton.2 .bool)))
  refine .object (by decide) (List.forall_mem_cons.2 ⟨.list (List.forall_mem_singleton.2 htype), ?_⟩)
  exact List.forall_mem_cons.2 ⟨.list (List.forall_mem_singleton.2 .text), List.forall_mem_singleton.2 hnote⟩

theorem decodeText_agrees_lateType : Value.ofText lateTypeText = .ok lateTypeValue ∧ RepeatsNoKey lateTypeText ∧
    Snapshot.schema.decodeText lateTypeText =
      .ok ⟨[⟨"VipsA", none, none, false, false⟩], {}, {}, [], ["VipsA"]⟩ ∧
    Config.schema.decodeText lateTypeText = .ok .default := by
  have hvalue : Value.ofText lateTypeText = .ok lateTypeValue := by with_unfolding_all rfl
  have hread : scanWritten nestingLimit lateTypeText.toList = .ok (lateTypeValue, []) := by with_unfolding_all rfl
  have hkeys : RepeatsNoKey lateTypeText := by
    intro w r hw
    cases hread.symm.trans hw
    exact distinctKeys_lateType
  obtain ⟨hsnapshot, hconfig⟩ := decodeText_agrees hvalue hkeys
  exact ⟨hvalue, hkeys, (hsnapshot _).2 rfl, (hconfig _).2 rfl⟩

end Autodoc.Json
