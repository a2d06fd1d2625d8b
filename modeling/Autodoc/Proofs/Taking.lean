import Autodoc.Proofs.FileNames
import Autodoc.Proofs.Writing

namespace Autodoc

namespace Sink

variable {σ : Type} {sink : Sink σ} {taken : List EmittedFile} {k k' : σ}

/-- A sink takes files one after the other; what it keeps goes from `k` to `k'`. -/
inductive Takes (sink : Sink σ) : List EmittedFile → σ → σ → Prop
  | nil (k : σ) : Takes sink [] k k
  | cons {file : EmittedFile} {files : List EmittedFile} {k k' : σ} (h : (sink file k).outcome = .ok ())
      (hs : Takes sink files (sink file k).state k') : Takes sink (file :: files) k k'

theorem Takes.feed_append (h : sink.Takes taken k k') (rest : List (Except GenerateError EmittedFile)) :
    sink.feed (taken.map .ok ++ rest) k = sink.feed rest k' := by
  induction h with
  | nil k => rfl
  | cons h _ ih => simp only [List.map_cons, List.cons_append, feed, h, ih]

theorem Takes.handedOf_append (h : sink.Takes taken k k') (rest : List (Except GenerateError EmittedFile)) :
    sink.handedOf (taken.map .ok ++ rest) k = taken ++ sink.handedOf rest k' := by
  induction h with
  | nil k => rfl
  | cons h _ ih => simp only [List.map_cons, List.cons_append, handedOf, h, ih]

theorem takes_iff_feed : sink.Takes taken k k' ↔ sink.feed (taken.map .ok) k = (k', .ok ()) := by
  constructor
  · intro h
    have hfeed := h.feed_append []
    rwa [List.append_nil] at hfeed
  · intro h
    induction taken generalizing k with
    | nil =>
      cases h
      exact .nil _
    | cons file taken ih =>
      cases ho : (sink file k).outcome with
      | error e =>
        simp only [List.map_cons, feed, ho] at h
        cases h
      | ok u =>
        simp only [List.map_cons, feed, ho] at h
        exact .cons ho (ih h)

theorem takes_accepting (files : List EmittedFile) : Sink.accepting.Takes files () () := by
  induction files with
  | nil => exact .nil ()
  | cons file files ih => exact .cons rfl ih

theorem Takes.handedOf (h : sink.Takes taken k k') : sink.handedOf (taken.map .ok) k = taken := by
  have hhanded := h.handedOf_append []
  rwa [List.append_nil, Sink.handedOf, List.append_nil] at hhanded

end Sink

namespace Emission

variable {c : Config} {r : Registry} {sink : Sink σ} {files : List EmittedFile} {k k' : σ}

theorem emitAll_of_takes (hs : r.script c = files.map .ok) (h : sink.Takes files k k') :
    (emitAll c sink ⟨r, k⟩).outcome = .ok files.length ∧ (emitAll c sink ⟨r, k⟩).state.kept = k' := by
  obtain ⟨hkept, hend⟩ := emitAll_feeds c sink ⟨r, k⟩
  rw [hs, Sink.takes_iff_feed.1 h, List.length_map] at hend
  rw [hs, Sink.takes_iff_feed.1 h] at hkept
  exact ⟨hend, hkept⟩

theorem handed_of_takes (hs : r.script c = files.map .ok) (h : sink.Takes files k k') :
    handed c sink ⟨r, k⟩ = files := by
  rw [handed_eq, hs, h.handedOf]

theorem takes_of_emitAll {n : Nat} (hs : r.script c = files.map .ok)
    (h : (emitAll c sink ⟨r, k⟩).outcome = .ok n) :
    sink.Takes files k (emitAll c sink ⟨r, k⟩).state.kept := by
  obtain ⟨hkept, hend⟩ := emitAll_feeds c sink ⟨r, k⟩
  rw [hend, hs] at h
  rw [hkept, hs, Sink.takes_iff_feed]
  cases ho : (sink.feed (files.map .ok) k).2 with
  | error e =>
    rw [ho] at h
    cases h
  | ok u => exact Prod.ext rfl ho

end Emission

section Write

variable {dir : String} {t t' : FileTree} {files : List EmittedFile}

theorem plainName_php {name : String} (h : '/' ∉ (name ++ ".php").toList) : PlainName (name ++ ".php") := by
  have hwords : ∀ word ∈ ["", ".", ".."], word.length < 4 := by decide
  refine ⟨h, fun hm => ?_⟩
  have hlength := hwords _ hm
  rw [String.length_append] at hlength
  exact Nat.not_lt.2 (Nat.le_add_left 4 _) hlength

theorem Registry.plainName_of_script {r : Registry} {c : Config} (h : files.map .ok <+: r.script c)
    {f : EmittedFile} (hf : f ∈ files) (hs : '/' ∉ f.fileName.toList) : PlainName f.fileName := by
  have hname := (map_fileName_isPrefix h).subset (List.mem_map_of_mem hf)
  obtain ⟨name, _, he⟩ := List.mem_map.1 hname
  rw [← he] at hs ⊢
  exact plainName_php hs

theorem keepsBut_takes (h : (writeSink dir).Takes files t t') (hn : ∀ f ∈ files, PlainName f.fileName) :
    t.KeepsBut (files.map (·.fileName)) t' := by
  induction h with
  | nil t => exact .refl t
  | cons _ _ ih =>
    have hfile := hn _ List.mem_cons_self
    have hfiles := ih fun f hf => hn f (List.mem_cons_of_mem _ hf)
    exact (EmittedFile.keepsBut_write hfile dir _).trans hfiles

/-- What was taken under different names is there. -/
theorem read_of_takes (h : (writeSink dir).Takes files t t') (hn : ∀ f ∈ files, PlainName f.fileName)
    (hd : (files.map (·.fileName)).Nodup) : ∀ f ∈ files, t'.read (f.path dir) = .ok f.contents.toUTF8 := by
  induction h with
  | nil t => exact fun f hf => absurd hf List.not_mem_nil
  | @cons file files t t' ho hs ih =>
    have hfile := hn file List.mem_cons_self
    have hfiles : ∀ f ∈ files, PlainName f.fileName := fun f hf => hn f (List.mem_cons_of_mem _ hf)
    obtain ⟨hnew, hd⟩ := List.nodup_cons.1 hd
    intro f hf
    rcases List.mem_cons.1 hf with rfl | hf
    -- The files that follow have other names, so the first is kept.
    · exact (keepsBut_takes hs hfiles).read hfile hnew (EmittedFile.read_of_write hfile ho)
    · exact ih hfiles hd f hf

/-- Files that are there are taken again, and the tree stays the same. -/
theorem takes_of_read (hn : ∀ f ∈ files, PlainName f.fileName)
    (hr : ∀ f ∈ files, t.read (f.path dir) = .ok f.contents.toUTF8) :
    ∃ t', (writeSink dir).Takes files t t' ∧ t.Same t' := by
  induction files generalizing t with
  | nil => exact ⟨t, .nil t, .refl t⟩
  | cons f files ih =>
    obtain ⟨ho, hsame⟩ := EmittedFile.write_of_read (hn f List.mem_cons_self) (hr f List.mem_cons_self)
    have hr' : ∀ g ∈ files, (f.write dir t).state.read (g.path dir) = .ok g.contents.toUTF8 := by
      intro g hg
      rw [hsame.read]
      exact hr g (List.mem_cons_of_mem _ hg)
    obtain ⟨t', htakes, hsame'⟩ := ih (fun g hg => hn g (List.mem_cons_of_mem _ hg)) hr'
    exact ⟨t', .cons ho htakes, hsame.trans hsame'⟩

end Write

end Autodoc
