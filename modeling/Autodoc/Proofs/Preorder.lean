import Autodoc.Proofs.Descent

namespace Autodoc

/-- The recursive visit of some types, each with what is below it before the next, where what was seen is passed over:
the types that it offers, in their order, and what has been seen in the end. -/
inductive Visits (children : α → List α) : List α → List α → List α → List α → Prop
  | done {seen : List α} : Visits children [] seen [] seen
  | skip {x : α} {xs seen order seen' : List α} (hx : x ∈ seen) (hxs : Visits children xs seen order seen') :
      Visits children (x :: xs) seen order seen'
  | enter {x : α} {xs seen seen' seen'' below order : List α} (hx : x ∉ seen)
      (hbelow : Visits children (children x) (x :: seen) below seen') (hxs : Visits children xs seen' order seen'') :
      Visits children (x :: xs) seen (x :: (below ++ order)) seen''

namespace Walk

def addName (found : List String) : Option String → List String
  | none => found
  | some name => insertName name found

/-- The walk as a loop without a bound on what is seen, for a number of turns: each takes the top off the stack and, if
that type is new, offers it and puts its children on the stack. There is a result once the stack is empty. -/
def loop [DecidableEq α] [Monad m] (children : α → List α) (accept : α → m (Option String)) :
    Nat → List α → List α → List String → m (Option (List String))
  | 0, _, _, _ => pure none
  | _ + 1, [], _, found => pure (some found)
  | turns + 1, x :: stack, seen, found =>
    if x ∈ seen then loop children accept turns stack seen found
    else do
      let name ← accept x
      loop children accept turns (children x ++ stack) (x :: seen) (addName found name)

end Walk

namespace Visits

variable {α : Type} {children : α → List α} {xs seen seen' order : List α}

theorem seen_eq (h : Visits children xs seen order seen') : seen' = order.reverse ++ seen := by
  induction h with
  | done => rfl
  | skip _ _ ih => exact ih
  | enter _ _ _ ihbelow ih =>
    rw [ih, ihbelow]
    simp only [List.reverse_cons, List.reverse_append, List.append_assoc, List.singleton_append]

theorem nodup (h : Visits children xs seen order seen') (hseen : seen.Nodup) : seen'.Nodup := by
  induction h with
  | done => exact hseen
  | skip _ _ ih => exact ih hseen
  | enter hx _ _ ihbelow ih => exact ih (ihbelow (List.nodup_cons.2 ⟨hx, hseen⟩))

theorem unique (h : Visits children xs seen order seen') {order' seen'' : List α}
    (h' : Visits children xs seen order' seen'') : order = order' ∧ seen' = seen'' := by
  induction h generalizing order' seen'' with
  | done =>
    cases h'
    exact ⟨rfl, rfl⟩
  | skip hx _ ih =>
    cases h' with
    | skip _ hxs => exact ih hxs
    | enter hx' _ _ => exact absurd hx hx'
  | enter hx _ _ ihbelow ih =>
    cases h' with
    | skip hx' _ => exact absurd hx' hx
    | enter _ hbelow hxs =>
      obtain ⟨rfl, rfl⟩ := ihbelow hbelow
      obtain ⟨rfl, rfl⟩ := ih hxs
      exact ⟨rfl, rfl⟩

section Finite

variable [DecidableEq α] {all : List α}

/-- The types that were not seen yet. -/
def unseen (all seen : List α) : Nat := (all.filter (· ∉ seen)).length

theorem unseen_le {before after : List α} (h : before ⊆ after) : unseen all after ≤ unseen all before := by
  apply List.Sublist.length_le
  apply List.monotone_filter_right
  intro x hx
  simp only [decide_eq_true_eq] at hx ⊢
  exact fun hb => hx (h hb)

/-- The recursion ends: on the way down there are fewer types that were not seen, and then fewer left to visit. -/
theorem exists_visits (hall : ∀ x, ∀ y ∈ children x, y ∈ all) (seen xs : List α) (hxs : ∀ x ∈ xs, x ∈ all) :
    ∃ order seen', Visits children xs seen order seen' := by
  match xs with
  | [] => exact ⟨[], seen, .done⟩
  | x :: xs =>
    obtain ⟨hx, hxs⟩ := List.forall_mem_cons.1 hxs
    by_cases hseen : x ∈ seen
    · obtain ⟨order, seen', h⟩ := exists_visits hall seen xs hxs
      exact ⟨order, seen', .skip hseen h⟩
    · have hfewer : unseen all (x :: seen) < unseen all seen := length_filter_notMem_lt hx hseen
      obtain ⟨below, seen', hbelow⟩ := exists_visits hall (x :: seen) (children x) (hall x)
      have hmore : x :: seen ⊆ seen' := by
        rw [hbelow.seen_eq]
        exact List.subset_append_right _ _
      have hle : unseen all seen' ≤ unseen all (x :: seen) := unseen_le hmore
      obtain ⟨order, seen'', h⟩ := exists_visits hall seen' xs hxs
      exact ⟨_, seen'', .enter hseen hbelow h⟩
termination_by (unseen all seen, xs.length)
decreasing_by
  · exact Prod.Lex.right _ (Nat.lt_succ_self _)
  · exact Prod.Lex.left _ _ hfewer
  · exact Prod.Lex.left _ _ (by omega)

theorem visit_append (h : Visits children xs seen order seen') (hall : ∀ x, ∀ y ∈ children x, y ∈ all)
    (hxs : ∀ x ∈ xs, x ∈ all) (stack : List α) :
    visit children all (xs ++ stack) seen = visit children all stack seen' := by
  induction h generalizing stack with
  | done => rfl
  | skip hx _ ih =>
    obtain ⟨_, hxs⟩ := List.forall_mem_cons.1 hxs
    rw [List.cons_append, visit, dif_neg fun h => h.2 hx]
    exact ih hxs stack
  | @enter x xs _ _ _ _ _ hx _ _ ihbelow ih =>
    obtain ⟨hmem, hxs⟩ := List.forall_mem_cons.1 hxs
    rw [List.cons_append, visit, dif_pos ⟨hmem, hx⟩, ihbelow (hall x), ih hxs]

theorem visit_eq (h : Visits children xs [] order seen') (hall : ∀ x, ∀ y ∈ children x, y ∈ all)
    (hxs : ∀ x ∈ xs, x ∈ all) : visit children all xs [] = order := by
  have hvisit := h.visit_append hall hxs []
  rw [List.append_nil] at hvisit
  rw [hvisit, visit, h.seen_eq, List.append_nil, List.reverse_reverse]

end Finite

/-- The loop comes to the rest of the stack after some turns, and has then offered the types of the recursion. -/
theorem loop_append [DecidableEq α] {m : Type → Type} [Monad m] [LawfulMonad m]
    (h : Visits children xs seen order seen') (accept : α → m (Option String)) :
    ∃ n, ∀ turns stack found, Walk.loop children accept (turns + n) (xs ++ stack) seen found =
      order.mapM accept >>= fun names =>
        Walk.loop children accept turns stack seen' (names.foldl Walk.addName found) := by
  induction h with
  | done =>
    refine ⟨0, fun turns stack found => ?_⟩
    rw [List.mapM_nil, pure_bind]
    rfl
  | skip hx _ ih =>
    obtain ⟨n, ih⟩ := ih
    refine ⟨n + 1, fun turns stack found => ?_⟩
    rw [List.cons_append, ← Nat.add_assoc, Walk.loop, if_pos hx, ih]
  | @enter x xs _ _ _ below order hx _ _ ihbelow ih =>
    obtain ⟨n, ihbelow⟩ := ihbelow
    obtain ⟨k, ih⟩ := ih
    refine ⟨k + n + 1, fun turns stack found => ?_⟩
    rw [List.cons_append, ← Nat.add_assoc, ← Nat.add_assoc, Walk.loop, if_neg hx, List.mapM_cons, List.mapM_append]
    simp only [ihbelow, ih, bind_assoc, pure_bind, List.foldl_cons, List.foldl_append]

end Visits

namespace Walk

theorem foldl_addName (names : List (Option String)) :
    names.foldl addName [] = sortedNames (names.filterMap id) := by
  have hadd (found : List String) (hfound : Increasing found) : Increasing (names.foldl addName found) ∧
      ∀ n, n ∈ names.foldl addName found ↔ n ∈ found ∨ some n ∈ names := by
    induction names generalizing found with
    | nil => simp [hfound]
    | cons name names ih =>
      rw [List.foldl_cons]
      cases name with
      | none => simpa [addName] using ih found hfound
      | some name =>
        obtain ⟨hincreasing, hmem⟩ := ih (insertName name found) (hfound.insertName name)
        refine ⟨hincreasing, fun n => ?_⟩
        rw [addName, hmem, mem_insertName, List.mem_cons, Option.some.injEq, or_assoc, or_left_comm]
  obtain ⟨hincreasing, hmem⟩ := hadd [] List.Pairwise.nil
  apply hincreasing.ext (sortedNames_increasing _)
  intro n
  rw [hmem, mem_sortedNames, List.mem_filterMap]
  simp

/-- Where there are finitely many types, whatever their children are, the recursive visit of what is below a type ends,
in one order. The order has each type once to which one step or more leads from the first, and no other. Names are
collected by offering the types in this order, each once; a loop with a stack and without a bound does so as well, and
ends. What is collected is the accepted names in increasing order. -/
theorem collect_preorder {α : Type} [DecidableEq α] {children : α → List α} {all : List α}
    (hall : ∀ x, ∀ y ∈ children x, y ∈ all) (root : α) :
    ∃ order, (∀ o s, Visits children (children root) [] o s ↔ o = order ∧ s = order.reverse) ∧ order.Nodup ∧
      (∀ x, x ∈ order ↔ Relation.TransGen (fun a b => b ∈ children a) root x) ∧
      (∀ {m : Type → Type} [Monad m] [LawfulMonad m] (accept : α → m (Option String)),
        (collect children all root accept = do
          let names ← order.mapM accept
          pure (sortedNames (names.filterMap id))) ∧
        ∃ n, ∀ turns, n ≤ turns →
          loop children accept turns (children root) [] [] = some <$> collect children all root accept) ∧
      ∀ names : List (Option String), Increasing (sortedNames (names.filterMap id)) ∧
        ∀ n, n ∈ sortedNames (names.filterMap id) ↔ some n ∈ names := by
  obtain ⟨order, seen, h⟩ := Visits.exists_visits hall [] (children root) (hall root)
  have hseen : seen = order.reverse := by rw [h.seen_eq, List.append_nil]
  have hvisit := h.visit_eq hall (hall root)
  refine ⟨order, ?one, ?nodup, ?mem, ?collects, ?sorted⟩
  case one =>
    intro o s
    constructor
    · intro ho
      obtain ⟨rfl, rfl⟩ := ho.unique h
      exact ⟨rfl, hseen⟩
    · rintro ⟨rfl, rfl⟩
      exact hseen ▸ h
  case nodup =>
    rw [← List.nodup_reverse, ← hseen]
    exact h.nodup List.nodup_nil
  case mem =>
    intro x
    rw [← hvisit, mem_visit_children_iff hall]
  case collects =>
    intro m _ _ accept
    rw [collect, hvisit]
    refine ⟨rfl, ?_⟩
    obtain ⟨n, hloop⟩ := h.loop_append accept
    refine ⟨n + 1, fun turns hturns => ?_⟩
    obtain ⟨turns, rfl⟩ := Nat.exists_eq_add_of_le hturns
    have hturns : n + 1 + turns = turns + 1 + n := by omega
    have hends := hloop (turns + 1) [] []
    rw [List.append_nil] at hends
    simp only [hturns, hends, loop, foldl_addName, map_bind, map_pure]
  case sorted =>
    intro names
    refine ⟨sortedNames_increasing _, fun n => ?_⟩
    rw [mem_sortedNames, List.mem_filterMap]
    simp

/-- Four types: two ways lead from the first to the last, and from there back to the first. -/
def knot : Fin 4 → List (Fin 4)
  | 0 => [2, 1]
  | 1 => [3]
  | 2 => [3]
  | 3 => [0]

def acceptNoted (x : Fin 4) : StateM (List (Fin 4)) (Option String) := do
  modify (· ++ [x])
  pure (if x = 3 then none else some (toString x))

theorem collect_preorder_knot : (∀ x, ∀ y ∈ knot x, y ∈ List.finRange 4) ∧
    (collect knot (List.finRange 4) 0 acceptNoted).run [] = (["0", "1", "2"], [2, 3, 0, 1]) := by
  have hall : ∀ x, ∀ y ∈ knot x, y ∈ List.finRange 4 := fun _ y _ => List.mem_finRange y
  obtain ⟨order, hone, _, _, hcollects, _⟩ := collect_preorder hall 0
  have hvisits : Visits knot [2, 1] [] [2, 3, 0, 1] [1, 0, 3, 2] := by
    have hlast : Visits knot [1] [0, 3, 2] (1 :: ([] ++ [])) [1, 0, 3, 2] :=
      .enter (by decide) (.skip (by decide) .done) .done
    have hback : Visits knot [0] [3, 2] (0 :: ([1] ++ [])) [1, 0, 3, 2] :=
      .enter (by decide) (.skip (by decide) hlast) .done
    have hfirst : Visits knot [3] [2] (3 :: ([0, 1] ++ [])) [1, 0, 3, 2] := .enter (by decide) hback .done
    have hwhole : Visits knot [2, 1] [] (2 :: ([3, 0, 1] ++ [])) [1, 0, 3, 2] :=
      .enter (by decide) hfirst (.skip (by decide) .done)
    exact hwhole
  obtain ⟨rfl, _⟩ := (hone _ _).1 hvisits
  refine ⟨hall, ?_⟩
  rw [(hcollects acceptNoted).1]
  rfl

end Walk

end Autodoc
