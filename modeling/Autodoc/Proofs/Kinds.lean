import Autodoc.Proofs.WellFormed

namespace Autodoc

theorem Kind.mem_roots_of_ofRoot? {type : String} {k : Kind} (h : Kind.ofRoot? type = some k) :
    (type, k) ∈ Kind.roots := by
  obtain ⟨before, after, hroots, _⟩ := List.lookup_eq_some_iff.1 h
  rw [hroots]
  exact List.mem_append_right _ List.mem_cons_self

theorem Kind.ofRoot?_inj {type type' : String} {k : Kind} (h : Kind.ofRoot? type = some k)
    (h' : Kind.ofRoot? type' = some k) : type = type' := by
  have hkinds : (Kind.roots.map Prod.snd).Nodup := by decide
  have he := List.inj_on_of_nodup_map hkinds (mem_roots_of_ofRoot? h) (mem_roots_of_ofRoot? h') rfl
  exact congrArg Prod.fst he

namespace Snapshot

variable {s : Snapshot}

theorem parentOf_of_parent? {parent child : String} (h : s.parent? child = some parent) :
    s.ParentOf parent child := by
  obtain ⟨t, ht, hp⟩ := Option.bind_eq_some_iff.1 h
  obtain ⟨hm, hn⟩ := mem_of_record?_eq_some ht
  exact ⟨t, hm, hn, hp⟩

theorem above_of_climb {fuel : Nat} {type : String} {k : Kind} (h : s.climb fuel type = .root k) :
    ∃ root, Kind.ofRoot? root = some k ∧ s.Above root type := by
  induction fuel generalizing type with
  | zero => cases h
  | succ fuel ih =>
    cases hp : s.parent? type with
    | none =>
      simp only [climb, hp] at h
      cases h
    | some parent =>
      have hparent := parentOf_of_parent? hp
      cases hr : Kind.ofRoot? parent with
      | some k' =>
        simp only [climb, hp, hr, Chain.root.injEq] at h
        exact ⟨parent, h ▸ hr, .single hparent⟩
      | none =>
        simp only [climb, hp, hr] at h
        obtain ⟨root, hroot, hup⟩ := ih h
        exact ⟨root, hroot, hup.tail hparent⟩

/-- A type of a known kind is the root of that kind or lies below it. -/
theorem root_of_kindOf {type : String} {k : Kind} (h : s.kindOf type = k) (hk : k ≠ .unknown) :
    Kind.ofRoot? type = some k ∨ ∃ root, Kind.ofRoot? root = some k ∧ s.Above root type := by
  unfold kindOf at h
  cases hr : Kind.ofRoot? type with
  | some k' =>
    simp only [hr] at h
    exact .inl (congrArg some h)
  | none =>
    simp only [hr] at h
    cases hc : s.chain type with
    | root k' =>
      simp only [hc] at h
      exact .inr (above_of_climb (h ▸ hc))
    | loose =>
      simp only [hc] at h
      exact absurd h.symm hk
    | endless =>
      simp only [hc] at h
      exact absurd h.symm hk

end Snapshot

end Autodoc
