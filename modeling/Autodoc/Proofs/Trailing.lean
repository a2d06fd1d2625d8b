import Autodoc.ConfigFile
import Autodoc.Proofs.Fronts

namespace Autodoc.Json

open Grammar

variable {s r : List Char}

theorem blanks_nil_iff : Blanks s [] ↔ skipBlanks s = [] :=
  ⟨fun h => h.skipBlanks_eq.trans rfl, blanks_of_skipBlanks⟩

theorem Schema.decodeText_eq_ok {schema : Schema α} {text : String} {x : α} :
    schema.decodeText text = .ok x ↔ ∃ r, schema.ofText text.toList = .ok (x, r) := by
  rw [Schema.decodeText]
  cases schema.ofText text.toList with
  | error e => simp only [reduceCtorEq, exists_false]
  | ok found =>
    obtain ⟨y, r⟩ := found
    simp only [Except.ok.injEq, Prod.mk.injEq]
    constructor
    · rintro rfl
      exact ⟨r, rfl, rfl⟩
    · rintro ⟨_, rfl, _⟩
      rfl

section Records

variable {name : String} {blank x : α} {slots : Slots α}

theorem record_takes (h : (Schema.record name blank slots).ofText s = .ok (x, r)) :
    Derives .value s r ∧ Free (fun s r => (Schema.record name blank slots).ofText s = .ok (x, r)) s r :=
  record_free slots.takes_fields slots.takes_items h

theorem record_delimited (h : (Schema.record name blank slots).ofText s = .ok (x, r)) : Delimited s r := by
  rcases record_ofText h with ⟨t, hs, _⟩ | ⟨t, hs, _⟩
  · exact .bracket hs
  · exact .brace hs

theorem exists_document (h : (Schema.record name blank slots).ofText s = .ok (x, r)) :
    ∃ p, s = p ++ r ∧ IsDocument p ∧ (Schema.record name blank slots).ofText p = .ok (x, []) := by
  obtain ⟨hderives, p, rfl, hp⟩ := record_takes h
  have halone := hp [] trivial
  obtain ⟨hderives, _⟩ := record_takes halone
  rw [List.append_nil] at halone hderives
  exact ⟨p, rfl, ⟨[], hderives, .nil⟩, halone⟩

/-- Whatever is put behind a text that is decoded as a record, it is decoded as the same record. -/
theorem ofText_append (h : (Schema.record name blank slots).ofText s = .ok (x, r)) (w : List Char) :
    (Schema.record name blank slots).ofText (s ++ w) = .ok (x, r ++ w) := by
  obtain ⟨_, p, rfl, hp⟩ := record_takes h
  rw [List.append_assoc]
  exact hp (r ++ w) trivial

/-- With something behind it, a document that is decoded as a record is no document any more, blanks apart. -/
theorem isDocument_append_iff (hs : IsDocument s) (h : (Schema.record name blank slots).ofText s = .ok (x, r))
    (w : List Char) : IsDocument (s ++ w) ↔ Blanks w [] := by
  obtain ⟨hderives, _⟩ := record_takes h
  have hlong := ofText_append h w
  obtain ⟨hderives', _⟩ := record_takes hlong
  have hblanks : Blanks r [] := (isDocument_iff hderives (record_delimited h)).1 hs
  have hrest : Blanks (r ++ w) w := by
    obtain ⟨p, hp, hfree⟩ := hblanks.free
    rw [List.append_nil] at hp
    exact hp ▸ hfree w trivial
  rw [isDocument_iff hderives' (record_delimited hlong), blanks_nil_iff, blanks_nil_iff, hrest.skipBlanks_eq]

end Records

theorem isDocument_of_ofText {text : String} {v : Value} (h : Value.ofText text = .ok v) :
    IsDocument text.toList := by
  rw [Value.ofText, Value.ofTextWithin] at h
  split at h
  next => cases h
  next w r hread =>
    split at h
    next hr =>
      rw [← scanValueBy_putEntry] at hread
      obtain ⟨u, hwritten⟩ := exists_scanWritten hread
      exact ⟨r, derives_of_skimValue (skimValue_of_scanWritten hwritten), blanks_nil_iff.2 hr⟩
    next => cases h

end Autodoc.Json

namespace Autodoc.Config

open Json Json.Grammar

theorem load_eq_ok_iff {t : FileTree} {path : String} {c : Config} :
    Config.load t path = .ok c ↔ ∃ text, t.readText path = .ok text ∧ Config.schema.decodeText text = .ok c := by
  rw [load]
  cases t.readText path with
  | error e => simp only [reduceCtorEq, false_and, exists_false]
  | ok text =>
    simp only [Except.ok.injEq, exists_eq_left']
    exact ⟨ok_of_mapError, fun h => by rw [h]; rfl⟩

/-- A config file is accepted for its beginning: a document that is decoded makes it the configuration that it is,
whatever stands behind it. The text of the file is a document itself only if nothing but blanks does; a text that is
read as a value always is one. -/
theorem load_beginning (t : FileTree) (path : String) (c : Config) :
    (Config.load t path = .ok c ↔ ∃ taken rest, t.readText path = .ok (taken ++ rest) ∧
      IsDocument taken.toList ∧ Config.schema.decodeText taken = .ok c) ∧
    (∀ taken rest : String, IsDocument taken.toList → Config.schema.decodeText taken = .ok c →
      (IsDocument (taken ++ rest).toList ↔ Blanks rest.toList [])) ∧
    ∀ (text : String) (v : Value), Value.ofText text = .ok v → IsDocument text.toList := by
  refine ⟨?_, fun taken rest htaken hdecode => ?_, fun text v => isDocument_of_ofText⟩
  · rw [load_eq_ok_iff]
    constructor
    · rintro ⟨text, hread, hdecode⟩
      obtain ⟨r, hr⟩ := Schema.decodeText_eq_ok.1 hdecode
      obtain ⟨p, hp, hdocument, halone⟩ := exists_document hr
      have htext : text = String.ofList p ++ String.ofList r := by
        rw [← String.ofList_append, ← hp, String.ofList_toList]
      refine ⟨String.ofList p, String.ofList r, htext ▸ hread, ?_, Schema.decodeText_eq_ok.2 ⟨[], ?_⟩⟩
      · rwa [String.toList_ofList]
      · rwa [String.toList_ofList]
    · rintro ⟨taken, rest, hread, _, hdecode⟩
      obtain ⟨r, hr⟩ := Schema.decodeText_eq_ok.1 hdecode
      refine ⟨_, hread, Schema.decodeText_eq_ok.2 ⟨r ++ rest.toList, ?_⟩⟩
      rw [String.toList_append]
      exact ofText_append hr rest.toList
  · obtain ⟨r, hr⟩ := Schema.decodeText_eq_ok.1 hdecode
    rw [String.toList_append]
    exact isDocument_append_iff htaken hr rest.toList

def spilt : FileTree := ⟨[], [(["c.json"], .file "\x7b\x7d junk".toUTF8)]⟩

theorem readText_spilt : spilt.readText "c.json" = .ok "\x7b\x7d junk" := by with_unfolding_all rfl

theorem decodeText_braces : Config.schema.decodeText "\x7b\x7d" = .ok .default := by with_unfolding_all rfl

theorem load_beginning_spilt : Config.load spilt "c.json" = .ok .default ∧ IsDocument "\x7b\x7d".toList ∧
    ¬ IsDocument ("\x7b\x7d" ++ " junk").toList := by
  obtain ⟨hload, hdocument, hwhole⟩ := load_beginning spilt "c.json" .default
  have hvalue : Value.ofText "\x7b\x7d" = .ok (.object []) := by with_unfolding_all rfl
  have hbraces := hwhole _ _ hvalue
  refine ⟨hload.2 ⟨"\x7b\x7d", " junk", readText_spilt, hbraces, decodeText_braces⟩, hbraces, ?_⟩
  rw [hdocument "\x7b\x7d" " junk" hbraces decodeText_braces, blanks_nil_iff]
  exact nofun

theorem load_spilt_junk : spilt.readText "c.json" = .ok "\x7b\x7d junk" ∧ Config.load spilt "c.json" = .ok .default ∧
    ¬ IsDocument "\x7b\x7d junk".toList ∧ ∃ e, Value.ofText "\x7b\x7d junk" = .error e := by
  refine ⟨readText_spilt, by with_unfolding_all rfl, ?_, ⟨_, by with_unfolding_all rfl⟩⟩
  have hderives : Derives .value "\x7b\x7d junk".toList " junk".toList := .emptyObject .nil .nil
  rw [isDocument_iff hderives (.brace (t := "\x7d junk".toList) rfl), blanks_nil_iff]
  exact nofun

end Autodoc.Config
