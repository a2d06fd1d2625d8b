import Mathlib.Data.List.DropRight
import Autodoc.Proofs.DocBlock

namespace Autodoc

def textLines (s : String) : List String := (s.toList.splitOn '\n').map String.ofList

def StartsWith (mark line : String) : Prop := mark.toList <+: line.toList

instance (mark line : String) : Decidable (StartsWith mark line) := inferInstanceAs (Decidable (_ <+: _))

theorem startsWith_append (mark s : String) : StartsWith mark (mark ++ s) := by
  rw [StartsWith, String.toList_append]
  exact List.prefix_append _ _

/-- The lines of a text that start with a mark, in their order. -/
def linesFrom (mark s : String) : List String := (textLines s).filter fun line => StartsWith mark line

theorem textLines_append {l : String} (hl : ¬ Breaks l) (t : String) :
    textLines (l ++ "\n" ++ t) = l :: textLines t := by
  have hlist : (l ++ "\n" ++ t).toList = l.toList ++ '\n' :: t.toList := by simp
  rw [textLines, hlist, List.splitOn_append_cons_self, List.splitOn_eq_singleton hl, List.singleton_append,
    List.map_cons, String.ofList_toList, ← textLines]

/-- Neither text starts with the other, so no text starts with both. -/
def Apart (mark start : String) : Prop := ¬ StartsWith mark start ∧ ¬ StartsWith start mark

instance (mark start : String) : Decidable (Apart mark start) := inferInstanceAs (Decidable (_ ∧ _))

theorem Apart.append {mark start : String} (h : Apart mark start) (rest : String) :
    ¬ StartsWith mark (start ++ rest) := by
  intro hm
  rw [StartsWith, String.toList_append] at hm
  rcases List.prefix_or_prefix_of_prefix hm (List.prefix_append _ _) with hp | hp
  · exact h.1 hp
  · exact h.2 hp

/-- Whole lines, of which these start with the mark. -/
def Listing (mark : String) (found : List String) (s : String) : Prop :=
  ∀ t, linesFrom mark (s ++ t) = found ++ linesFrom mark t

namespace Listing

variable {mark : String} {found more : List String} {s s' l start : String}

theorem nil (mark : String) : Listing mark [] "" := fun t => by rw [String.empty_append, List.nil_append]

theorem append (h : Listing mark found s) (h' : Listing mark more s') :
    Listing mark (found ++ more) (s ++ s') := by
  intro t
  rw [String.append_assoc, h, h', List.append_assoc]

theorem line (hl : ¬ Breaks l) (hm : StartsWith mark l) : Listing mark [l] (l ++ "\n") := by
  intro t
  rw [linesFrom, textLines_append hl, List.filter_cons_of_pos (by simpa using hm), ← linesFrom,
    List.singleton_append]

theorem other (hl : ¬ Breaks l) (hm : ¬ StartsWith mark l) : Listing mark [] (l ++ "\n") := by
  intro t
  rw [linesFrom, textLines_append hl, List.filter_cons_of_neg (by simpa using hm), ← linesFrom, List.nil_append]

theorem apart {t r more : String} (ha : Apart mark start) (hs : ¬ Breaks start) (ht : ¬ Breaks t) (hr : ¬ Breaks r)
    (hmore : Listing mark [] more) : Listing mark [] (start ++ t ++ (r ++ "\n" ++ more)) := by
  have hl : ¬ Breaks (start ++ (t ++ r)) := by simp [breaks_append, hs, ht, hr]
  have hline := (other hl (ha.append (t ++ r))).append hmore
  simpa only [String.append_assoc, List.nil_append] using hline

theorem fixed (hm : mark ≠ "") (h : s.toList.getLast? = some '\n') : Listing mark (linesFrom mark s) s := by
  have hempty : [""].filter (fun line => StartsWith mark line) = [] := by
    have hstart : ¬ StartsWith mark "" := by simpa [StartsWith] using hm
    rw [List.filter_cons_of_neg (by simpa using hstart), List.filter_nil]
  obtain ⟨before, hs⟩ : ∃ before, s.toList = before ++ '\n' :: [] :=
    ⟨_, (List.dropLast_append_getLast? _ h).symm⟩
  intro t
  have hst : (s ++ t).toList = before ++ '\n' :: t.toList := by
    rw [String.toList_append, hs, List.append_assoc]
    rfl
  rw [linesFrom, linesFrom, linesFrom, textLines, textLines, hst, hs, List.splitOn_append_cons_self,
    List.splitOn_append_cons_self, List.map_append, List.map_append, List.filter_append, List.filter_append]
  have hend : (([] : List Char).splitOn '\n').map String.ofList = [""] := rfl
  rw [hend, hempty, List.append_nil, ← textLines]

theorem join {f : α → String} {g : α → List String} {as : List α}
    (h : ∀ a ∈ as, Listing mark (g a) (f a)) : Listing mark (as.flatMap g) (String.join (as.map f)) := by
  induction as with
  | nil => exact nil mark
  | cons a as ih =>
    have hhead := h a List.mem_cons_self
    have htail := ih fun b hb => h b (List.mem_cons_of_mem _ hb)
    rw [List.flatMap_cons, List.map_cons, String.join_cons]
    exact hhead.append htail

theorem join_nil {f : α → String} {as : List α} (h : ∀ a ∈ as, Listing mark [] (f a)) :
    Listing mark [] (String.join (as.map f)) := by
  have hjoin := join h
  rwa [List.flatMap_eq_nil_iff.2 fun _ _ => rfl] at hjoin

theorem join_line {f g : α → String} {as : List α} (h : ∀ a ∈ as, Listing mark [g a] (f a)) :
    Listing mark (as.map g) (String.join (as.map f)) := by
  rw [List.map_eq_flatMap (f := g)]
  exact join h

theorem linesFrom_eq (h : Listing mark found s) (hm : mark ≠ "") : linesFrom mark s = found := by
  have hend := h ""
  have hnone : linesFrom mark "" = [] := by
    have hstart : ¬ StartsWith mark "" := by simpa [StartsWith] using hm
    have hempty : textLines "" = [""] := rfl
    rw [linesFrom, hempty, List.filter_cons_of_neg (by simpa using hstart), List.filter_nil]
  rwa [String.append_empty, hnone, List.append_nil] at hend

end Listing

end Autodoc
