import Autodoc.Proofs.NameOrder
import Autodoc.Proofs.WellFormed

namespace Autodoc

section Visit

variable {α : Type} [DecidableEq α] {children : α → List α} {all stack seen : List α}

theorem seen_subset_visit : ∀ x ∈ seen, x ∈ visit children all stack seen := by
  fun_induction visit children all stack seen with
  | case1 seen => exact fun x hx => List.mem_reverse.2 hx
  | case2 seen x stack h ih => exact fun y hy => ih y (List.mem_cons_of_mem _ hy)
  | case3 seen x stack h ih => exact ih

theorem stack_subset_visit (hs : ∀ x ∈ stack, x ∈ all) (hc : ∀ x, ∀ y ∈ children x, y ∈ all) :
    ∀ x ∈ stack, x ∈ visit children all stack seen := by
  fun_induction visit children all stack seen with
  | case1 seen => exact fun x hx => absurd hx List.not_mem_nil
  | case2 seen x stack h ih =>
    have hs' : ∀ y ∈ children x ++ stack, y ∈ all := by
      intro y hy
      rcases List.mem_append.1 hy with hy | hy
      · exact hc x y hy
      · exact hs y (List.mem_cons_of_mem _ hy)
    intro y hy
    rcases List.mem_cons.1 hy with rfl | hy
    · exact seen_subset_visit y List.mem_cons_self
    · exact ih hs' y (List.mem_append_right _ hy)
  | case3 seen x stack h ih =>
    intro y hy
    rcases List.mem_cons.1 hy with rfl | hy
    · have hseen : y ∈ seen := Classical.not_not.1 fun hn => h ⟨hs y List.mem_cons_self, hn⟩
      exact seen_subset_visit y hseen
    · exact ih (fun z hz => hs z (List.mem_cons_of_mem _ hz)) y hy

/-- The invariant of the visit: the children of what was seen are seen or wait on the stack. -/
theorem visit_closed (hs : ∀ x ∈ stack, x ∈ all) (hc : ∀ x, ∀ y ∈ children x, y ∈ all)
    (hi : ∀ x ∈ seen, ∀ y ∈ children x, y ∈ seen ∨ y ∈ stack) :
    ∀ x ∈ visit children all stack seen, ∀ y ∈ children x, y ∈ visit children all stack seen := by
  fun_induction visit children all stack seen with
  | case1 seen =>
    intro x hx y hy
    rcases hi x (List.mem_reverse.1 hx) y hy with hy | hy
    · exact List.mem_reverse.2 hy
    · exact absurd hy List.not_mem_nil
  | case2 seen x stack h ih =>
    apply ih
    · intro y hy
      rcases List.mem_append.1 hy with hy | hy
      · exact hc x y hy
      · exact hs y (List.mem_cons_of_mem _ hy)
    · intro z hz y hy
      rcases List.mem_cons.1 hz with rfl | hz
      · exact .inr (List.mem_append_left _ hy)
      · rcases hi z hz y hy with hy | hy
        · exact .inl (List.mem_cons_of_mem _ hy)
        · rcases List.mem_cons.1 hy with rfl | hy
          · exact .inl List.mem_cons_self
          · exact .inr (List.mem_append_right _ hy)
  | case3 seen x stack h ih =>
    have hseen : x ∈ seen := Classical.not_not.1 fun hn => h ⟨hs x List.mem_cons_self, hn⟩
    apply ih
    · exact fun y hy => hs y (List.mem_cons_of_mem _ hy)
    · intro z hz y hy
      rcases hi z hz y hy with hy | hy
      · exact .inl hy
      · rcases List.mem_cons.1 hy with rfl | hy
        · exact .inl hseen
        · exact .inr hy

theorem visit_sound : ∀ x ∈ visit children all stack seen,
    x ∈ seen ∨ ∃ y ∈ stack, Relation.ReflTransGen (fun a b => b ∈ children a) y x := by
  fun_induction visit children all stack seen with
  | case1 seen => exact fun x hx => .inl (List.mem_reverse.1 hx)
  | case2 seen z stack h ih =>
    intro x hx
    rcases ih x hx with hx | ⟨y, hy, hyx⟩
    · rcases List.mem_cons.1 hx with rfl | hx
      · exact .inr ⟨x, List.mem_cons_self, .refl⟩
      · exact .inl hx
    · rcases List.mem_append.1 hy with hy | hy
      · exact .inr ⟨z, List.mem_cons_self, .head hy hyx⟩
      · exact .inr ⟨y, List.mem_cons_of_mem _ hy, hyx⟩
  | case3 seen z stack h ih =>
    intro x hx
    rcases ih x hx with hx | ⟨y, hy, hyx⟩
    · exact .inl hx
    · exact .inr ⟨y, List.mem_cons_of_mem _ hy, hyx⟩

theorem visit_leaves (hs : ∀ x ∈ stack, x ∈ all) (hleaf : ∀ x ∈ stack, children x = [])
    (hn : ∀ x ∈ stack, x ∉ seen) (hd : stack.Nodup) : visit children all stack seen = seen.reverse ++ stack := by
  fun_induction visit children all stack seen with
  | case1 seen => rw [List.append_nil]
  | case2 seen x stack h ih =>
    obtain ⟨hx, hd⟩ := List.nodup_cons.1 hd
    rw [hleaf x List.mem_cons_self, List.nil_append] at ih ⊢
    have hrest : ∀ y ∈ stack, y ∉ x :: seen := by
      intro y hy hmem
      rcases List.mem_cons.1 hmem with rfl | hmem
      · exact hx hy
      · exact hn y (List.mem_cons_of_mem _ hy) hmem
    rw [ih (fun y hy => hs y (List.mem_cons_of_mem _ hy)) (fun y hy => hleaf y (List.mem_cons_of_mem _ hy)) hrest hd,
      List.reverse_cons, List.append_assoc, List.singleton_append]
  | case3 seen x stack h ih => exact absurd ⟨hs x List.mem_cons_self, hn x List.mem_cons_self⟩ h

/-- A visit from nothing finds what one step or more leads to. -/
theorem mem_visit_children_iff (hc : ∀ x, ∀ y ∈ children x, y ∈ all) {root x : α} :
    x ∈ visit children all (children root) [] ↔
      Relation.TransGen (fun a b => b ∈ children a) root x := by
  constructor
  · intro hx
    rcases visit_sound x hx with hx | ⟨y, hy, hyx⟩
    · exact absurd hx List.not_mem_nil
    · exact Relation.TransGen.head' hy hyx
  · intro h
    induction h with
    | single hy => exact stack_subset_visit (hc root) hc _ hy
    | tail _ hy ih =>
      exact visit_closed (hc root) hc (fun z hz => absurd hz List.not_mem_nil) _ ih _ hy

end Visit

namespace Registry

variable {r : Registry}

/-- A visible type is recorded right below another. -/
def Shows (r : Registry) (parent child : String) : Prop :=
  r.snapshot.ParentOf parent child ∧ child ∉ r.hidden

/-- Visible types lead down from a type to another, in one step or more. -/
def Descends (r : Registry) : String → String → Prop := Relation.TransGen r.Shows

theorem isHidden_iff {name : String} : r.isHidden name = true ↔ name ∈ r.hidden := by
  simp only [isHidden, List.contains_eq_mem, decide_eq_true_eq]

theorem mem_children {parent child : String} :
    child ∈ r.children parent ↔ r.Shows parent child := by
  simp only [children, List.mem_filter, List.mem_map, Bool.not_eq_true', Shows,
    ← Bool.not_eq_true, isHidden_iff, decide_eq_true_eq, Snapshot.ParentOf]
  constructor
  · rintro ⟨⟨t, ⟨ht, hp⟩, hn⟩, hh⟩
    exact ⟨⟨t, ht, hn, hp⟩, hh⟩
  · rintro ⟨⟨t, ht, hn, hp⟩, hh⟩
    exact ⟨⟨t, ⟨ht, hp⟩, hn⟩, hh⟩

theorem mem_below {root type : String} : type ∈ r.below root ↔ r.Descends root type := by
  have hc : ∀ x, ∀ y ∈ r.children x, y ∈ r.snapshot.typeNames := by
    intro x y hy
    exact (mem_children.1 hy).1.mem_typeNames
  have hs : (fun a b => b ∈ r.children a) = r.Shows := by
    funext a b
    exact propext mem_children
  rw [below, mem_visit_children_iff hc, hs, Descends]

theorem below_of_leaves {root : String} {types : List String} (hroot : r.children root = types)
    (hleaf : ∀ t ∈ types, r.children t = []) (hd : types.Nodup) : r.below root = types := by
  have hs : ∀ t ∈ types, t ∈ r.snapshot.typeNames := by
    intro t ht
    exact (mem_children.1 (hroot ▸ ht)).1.mem_typeNames
  rw [below, hroot, visit_leaves hs hleaf (fun _ _ => List.not_mem_nil) hd, List.reverse_nil, List.nil_append]

theorem Descends.above {root type : String} (h : r.Descends root type) :
    r.snapshot.Above root type :=
  Relation.TransGen.mono (fun _ _ hs => hs.1) _ _ h

theorem outcome_collect {root : String} {accept : String → Logged ε (Option String)}
    {name? : String → Option String}
    (h : ∀ type ∈ r.below root, (accept type).outcome = .ok (name? type)) :
    (r.collect root accept).outcome = .ok (sortedNames ((r.below root).filterMap name?)) := by
  rw [collect, Walk.collect, ← Logged.each_eq_mapM, ← below, Logged.outcome_bind, Logged.outcome_each_ok h]
  simp only [Except.bind, Logged.outcome_pure, List.filterMap_map, Function.id_comp]

end Registry

end Autodoc
