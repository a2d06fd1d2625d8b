import Autodoc.Delivery
import Autodoc.Proofs.FileTree

namespace Autodoc

namespace FileTree

variable {t t' t'' : FileTree} {p q : Place} {path dir name : String} {data : ByteArray}

theorem write_joinPath (hn : PlainName name) (dir : String) (data : ByteArray) :
    t.write (joinPath dir name) data =
      match t.resolve (joinPath dir name) with
      | .error e => .error e
      | .ok p =>
        match t.find? p with
        | some .directory => .error .isDirectory
        | _ => .ok (t.put p (.file data)) := by
  rw [write, withoutSlash_joinPath dir hn, endsInName_joinPath dir hn]
  rfl

theorem write_eq_ok_iff (hn : PlainName name) : t.write (joinPath dir name) data = .ok t' ↔
    ∃ p, t.resolve (joinPath dir name) = .ok p ∧ t.find? p ≠ some .directory ∧ t' = t.put p (.file data) := by
  rw [write_joinPath hn]
  cases hr : t.resolve (joinPath dir name) with
  | error e => simp
  | ok p =>
    cases hf : t.find? p with
    | none => simp [hf, eq_comm]
    | some e => cases e <;> simp [hf, eq_comm]

theorem keepsBut_write (hn : PlainName name) (h : t.write (joinPath dir name) data = .ok t') :
    KeepsBut [name] t t' := by
  obtain ⟨p, hr, hf, rfl⟩ := (write_eq_ok_iff hn).1 h
  exact .put_file hf (getLast?_of_resolve hn hr) data

theorem read_of_write (hn : PlainName name) (h : t.write (joinPath dir name) data = .ok t') :
    t'.read (joinPath dir name) = .ok data := by
  have hkeeps := keepsBut_write hn h
  obtain ⟨p, hr, _, rfl⟩ := (write_eq_ok_iff hn).1 h
  obtain ⟨q, _, rfl, _⟩ := resolve_joinPath hn hr
  exact read_eq_ok_iff.2 ⟨_, hkeeps.resolve hr, find?_put_self (by simp) _⟩

theorem KeepsBut.read {names : List String} (h : KeepsBut names t t') (hn : PlainName name)
    (hm : name ∉ names) (hr : t.read (joinPath dir name) = .ok data) :
    t'.read (joinPath dir name) = .ok data := by
  obtain ⟨p, hp, hf⟩ := read_eq_ok_iff.1 hr
  refine read_eq_ok_iff.2 ⟨p, h.resolve hp, h.files p data hf ?_⟩
  intro other hother hl
  rw [getLast?_of_resolve hn hp] at hl
  cases hl
  exact hm hother

theorem keepsBut_makeDirectory (h : t.makeDirectory path = .ok t') : KeepsBut [] t t' := by
  unfold makeDirectory at h
  split at h
  · cases h
  · split at h
    · cases h
    · split at h
      · cases h
      · rename_i hnone
        cases h
        exact .put_directory hnone

theorem keepsBut_makeDirectoriesIn (t : FileTree) (fuel : Nat) (path : String) :
    KeepsBut [] t (t.makeDirectoriesIn fuel path).1 := by
  induction fuel generalizing t path with
  | zero => exact .refl t
  | succ fuel ih =>
    rw [makeDirectoriesIn]
    by_cases hempty : path.isEmpty = true
    · rw [if_pos hempty]
      exact .refl t
    rw [if_neg hempty]
    cases hmake : t.makeDirectory path with
    | ok t' =>
      simp only [hmake]
      exact keepsBut_makeDirectory hmake
    | error e =>
      cases e with
      | notFound =>
        cases parentPath? path with
        | none => exact .refl t
        | some parent =>
          have hparent := ih t parent
          dsimp only
          generalize t.makeDirectoriesIn fuel parent = made at hparent ⊢
          obtain ⟨t', e | ⟨⟩⟩ := made
          · exact hparent
          · apply hparent.trans
            dsimp only
            cases hlast : t'.makeDirectory path with
            | ok t'' => exact keepsBut_makeDirectory hlast
            | error e => exact .refl t'
      | _ =>
        simp only [hmake]
        exact .refl t

theorem keepsBut_makeDirectories (t : FileTree) (path : String) : KeepsBut [] t (t.makeDirectories path).1 :=
  t.keepsBut_makeDirectoriesIn _ path

theorem makeDirectories_empty (t : FileTree) : t.makeDirectories "" = (t, .ok ()) := rfl

theorem makeDirectories_of_directory (h : t.resolve path = .ok p) (hd : t.find? p = some .directory) :
    t.makeDirectories path = (t, .ok ()) := by
  have hmake : t.makeDirectory path = .error .alreadyThere := by
    simp only [makeDirectory, resolve_withoutSlash h, hd, ite_self]
  have his : t.isDirectory path = true := by simp only [isDirectory, h, hd]
  rw [makeDirectories, makeDirectoriesIn]
  cases parentPath? path <;> simp [hmake, his]

/-- The same entries, seen from the same place. -/
structure Same (t t' : FileTree) : Prop where
  here : t'.here = t.here
  find? : ∀ p, t'.find? p = t.find? p

theorem Same.refl (t : FileTree) : Same t t := ⟨rfl, fun _ => rfl⟩

theorem Same.trans (h : Same t t') (h' : Same t' t'') : Same t t'' :=
  ⟨h'.here.trans h.here, fun p => (h'.find? p).trans (h.find? p)⟩

theorem Same.read (h : Same t t') (path : String) : t'.read path = t.read path := by
  have hstep : t'.step = t.step := by
    funext p name
    rw [step, step, h.find?]
  have hresolve : t'.resolve path = t.resolve path := by
    rw [resolve, resolve, start, start, h.here, hstep]
  simp only [FileTree.read, hresolve, h.find?]

theorem same_put {e : Entry} (h : t.find? p = some e) (hp : p ≠ []) : Same t (t.put p e) := by
  refine ⟨rfl, fun q => ?_⟩
  rw [find?_put hp]
  split
  next hq => rw [hq, h]
  next => rfl

theorem write_of_read (hn : PlainName name) (h : t.read (joinPath dir name) = .ok data) :
    t.makeDirectories dir = (t, .ok ()) ∧
      ∃ t', t.write (joinPath dir name) data = .ok t' ∧ Same t t' := by
  obtain ⟨p, hp, hf⟩ := read_eq_ok_iff.1 h
  obtain ⟨q, hq, hpq, hdir⟩ := resolve_joinPath hn hp
  constructor
  · rcases hdir with rfl | hdir
    · exact makeDirectories_empty t
    · exact makeDirectories_of_directory hdir hq
  · refine ⟨_, (write_eq_ok_iff hn).2 ⟨p, hp, by simp [hf], rfl⟩, same_put hf ?_⟩
    simp [hpq]

end FileTree

namespace EmittedFile

open FileTree

variable {f : EmittedFile} {dir : String} {t t' : FileTree}

/-- A write makes the directories and then puts the file in place. -/
theorem write_eq (f : EmittedFile) (dir : String) (t : FileTree) :
    ((f.write dir t).state, (f.write dir t).outcome) =
      match t.makeDirectories dir with
      | (made, .error e) => (made, .error (.file dir e))
      | (made, .ok ()) =>
        match made.write (f.path dir) f.contents.toUTF8 with
        | .error e => (made, .error (.file (f.path dir) e))
        | .ok t' => (t', .ok ()) := by
  simp only [write, bind, Action.bind, Action.note, Action.ask, Logged.note]
  rcases t.makeDirectories dir with ⟨made, e | ⟨⟩⟩
  · rfl
  · simp only
    cases made.write (f.path dir) f.contents.toUTF8 <;> rfl

/-- A write that fails has made directories at most. -/
theorem write_cases (f : EmittedFile) (dir : String) (t : FileTree) :
    (∃ e, (f.write dir t).outcome = .error e ∧ (f.write dir t).state = (t.makeDirectories dir).1) ∨
      (f.write dir t).outcome = .ok () ∧
        (t.makeDirectories dir).1.write (f.path dir) f.contents.toUTF8 = .ok (f.write dir t).state := by
  have h := f.write_eq dir t
  generalize t.makeDirectories dir = made at h ⊢
  obtain ⟨made, e | ⟨⟩⟩ := made
  · simp only [Prod.mk.injEq] at h
    exact .inl ⟨_, h.2, h.1⟩
  · cases hw : made.write (f.path dir) f.contents.toUTF8 with
    | error e =>
      simp only [hw, Prod.mk.injEq] at h
      exact .inl ⟨_, h.2, h.1⟩
    | ok t' =>
      simp only [hw, Prod.mk.injEq] at h
      exact .inr ⟨h.2, congrArg _ h.1.symm⟩

theorem keepsBut_write (hn : PlainName f.fileName) (dir : String) (t : FileTree) :
    KeepsBut [f.fileName] t (f.write dir t).state := by
  have hmade := t.keepsBut_makeDirectories dir
  rcases f.write_cases dir t with ⟨e, _, hstate⟩ | ⟨_, hwrite⟩
  · rw [hstate]
    exact hmade.weaken (List.nil_subset _)
  · exact hmade.trans (FileTree.keepsBut_write hn hwrite)

theorem read_of_write (hn : PlainName f.fileName) (h : (f.write dir t).outcome = .ok ()) :
    (f.write dir t).state.read (f.path dir) = .ok f.contents.toUTF8 := by
  rcases f.write_cases dir t with ⟨e, he, _⟩ | ⟨_, hwrite⟩
  · rw [he] at h
    cases h
  · exact FileTree.read_of_write hn hwrite

theorem write_of_read (hn : PlainName f.fileName) (h : t.read (f.path dir) = .ok f.contents.toUTF8) :
    (f.write dir t).outcome = .ok () ∧ Same t (f.write dir t).state := by
  obtain ⟨hd, t', hw, hsame⟩ := FileTree.write_of_read hn h
  have heq := f.write_eq dir t
  simp only [hd, path, hw, Prod.mk.injEq] at heq
  exact ⟨heq.2, heq.1 ▸ hsame⟩

theorem write_here (hn : ShortName f.fileName) (hd : t.find? t.here = some .directory) :
    ((f.write "" t).state, (f.write "" t).outcome) =
      match t.find? (t.here ++ [f.fileName]) with
      | some .directory => (t, .error (.file f.fileName .isDirectory))
      | _ => (t.put (t.here ++ [f.fileName]) (.file f.contents.toUTF8), .ok ()) := by
  have hwrite := write_joinPath (t := t) hn.toPlainName "" f.contents.toUTF8
  rw [joinPath_empty, resolve_here hn hd] at hwrite
  have heq := f.write_eq "" t
  rw [makeDirectories_empty, path, joinPath_empty] at heq
  rw [heq]
  simp only [hwrite]
  rcases t.find? (t.here ++ [f.fileName]) with _ | (data | _) <;> rfl

end EmittedFile

end Autodoc
