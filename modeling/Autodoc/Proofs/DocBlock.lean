import Mathlib.Data.List.Infix

namespace Autodoc

/-- The text ends the comment in which it stands. -/
def Closes (s : String) : Prop := ['*', '/'] <:+: s.toList

instance (s : String) : Decidable (Closes s) := inferInstanceAs (Decidable (_ <:+: _))

def Breaks (s : String) : Prop := '\n' ∈ s.toList

instance (s : String) : Decidable (Breaks s) := inferInstanceAs (Decidable (_ ∈ _))

theorem star_slash_infix_cons {c : Char} {cs : List Char} : ['*', '/'] <:+: c :: cs ↔
    (c = '*' ∧ cs.head? = some '/') ∨ ['*', '/'] <:+: cs := by
  rw [List.infix_cons_iff, List.cons_prefix_cons]
  cases cs with
  | nil => simp
  | cons d cs => simp [List.cons_prefix_cons, eq_comm]

theorem star_slash_infix_append {cs ds : List Char} : ['*', '/'] <:+: cs ++ ds ↔
    ['*', '/'] <:+: cs ∨ ['*', '/'] <:+: ds ∨ (cs.getLast? = some '*' ∧ ds.head? = some '/') := by
  induction cs with
  | nil => simp
  | cons c cs ih =>
    rw [List.cons_append, star_slash_infix_cons, star_slash_infix_cons, ih]
    cases cs with
    | nil => simp [or_comm]
    | cons d cs => simp [or_assoc]

theorem closes_append {s t : String} : Closes (s ++ t) ↔
    Closes s ∨ Closes t ∨ (s.toList.getLast? = some '*' ∧ t.toList.head? = some '/') := by
  rw [Closes, String.toList_append, star_slash_infix_append, Closes, Closes]

theorem not_closes_of_notMem {s : String} {c : Char} (hc : c = '*' ∨ c = '/') (h : c ∉ s.toList) : ¬ Closes s := by
  intro hs
  refine h (hs.subset ?_)
  rcases hc with rfl | rfl <;> simp

theorem breaks_append {s t : String} : Breaks (s ++ t) ↔ Breaks s ∨ Breaks t := by
  rw [Breaks, String.toList_append, List.mem_append, Breaks, Breaks]

theorem getLast?_append_ne {s t : String} {c : Char} (hs : s.toList.getLast? ≠ some c)
    (ht : t.toList.getLast? ≠ some c) : (s ++ t).toList.getLast? ≠ some c := by
  rw [String.toList_append, List.getLast?_append]
  intro hlast
  rcases Option.or_eq_some_iff.1 hlast with hlast | ⟨_, hlast⟩
  · exact ht hlast
  · exact hs hlast

/-- What relates a text to its parts is kept when texts are joined, if it is kept by appending. -/
theorem join_induction {P : List String → String → Prop} (hnil : P [] "")
    (happend : ∀ {ts us : List String} {s t : String}, P ts s → P us t → P (ts ++ us) (s ++ t))
    {f : α → List String} {g : α → String} (h : ∀ a, P (f a) (g a)) (as : List α) :
    P (as.flatMap f) (String.join (as.map g)) := by
  induction as with
  | nil => exact hnil
  | cons a as ih =>
    rw [List.flatMap_cons, List.map_cons, String.join_cons]
    exact happend (h a) ih

/-- Fixed text that may stand next to any text: it neither starts nor ends half a closing. -/
def Fixed (f : String) : Prop :=
  f ≠ "" ∧ '/' ∉ f.toList ∧ '\n' ∉ f.toList ∧ f.toList.getLast? ≠ some '*'

instance (f : String) : Decidable (Fixed f) := inferInstanceAs (Decidable (_ ∧ _ ∧ _ ∧ _))

namespace Fixed

variable {f : String}

theorem not_closes (h : Fixed f) : ¬ Closes f := not_closes_of_notMem (.inr rfl) h.2.1

theorem not_breaks (h : Fixed f) : ¬ Breaks f := h.2.2.1

theorem head?_ne (h : Fixed f) : f.toList.head? ≠ some '/' := fun hf => h.2.1 (List.mem_of_head? hf)

theorem getLast?_append (h : Fixed f) (s : String) : (s ++ f).toList.getLast? = f.toList.getLast? := by
  have hne : f.toList ≠ [] := fun hf => h.1 (String.toList_eq_nil_iff.1 hf)
  rw [String.toList_append, List.getLast?_append_of_ne_nil _ hne]

end Fixed

/-- The texts in their order, each with fixed text after it. -/
inductive Woven : List String → String → Prop
  | nil : Woven [] ""
  | fixed {f : String} (h : Fixed f) : Woven [] f
  | text (t : String) {f : String} (h : Fixed f) : Woven [t] (t ++ f)
  | append {ts us : List String} {s s' : String} (h : Woven ts s) (h' : Woven us s') : Woven (ts ++ us) (s ++ s')

namespace Woven

variable {ts : List String} {s : String}

theorem then_fixed (h : Woven ts s) {f : String} (hf : Fixed f) : Woven ts (s ++ f) := by
  simpa only [List.append_nil] using h.append (.fixed hf)

theorem then_text (h : Woven ts s) (t : String) {f : String} (hf : Fixed f) : Woven (ts ++ [t]) (s ++ t ++ f) := by
  simpa only [String.append_assoc] using h.append (.text t hf)

theorem join {f : α → List String} {g : α → String} (h : ∀ a, Woven (f a) (g a)) (as : List α) :
    Woven (as.flatMap f) (String.join (as.map g)) :=
  join_induction .nil .append h as

theorem getLast?_ne (h : Woven ts s) : s.toList.getLast? ≠ some '*' := by
  induction h with
  | nil => simp
  | fixed h => exact h.2.2.2
  | text t h =>
    rw [h.getLast?_append]
    exact h.2.2.2
  | append _ _ ih ih' => exact getLast?_append_ne ih ih'

theorem closes_iff (h : Woven ts s) : Closes s ↔ ∃ t ∈ ts, Closes t := by
  induction h with
  | nil => simp [Closes]
  | fixed h => simp [h.not_closes]
  | text t h => simp [closes_append, h.not_closes, h.head?_ne]
  | append h _ ih ih' => simp [closes_append, h.getLast?_ne, ih, ih', or_and_right, exists_or]

theorem breaks_iff (h : Woven ts s) : Breaks s ↔ ∃ t ∈ ts, Breaks t := by
  induction h with
  | nil => simp [Breaks]
  | fixed h => simp [h.not_breaks]
  | text t h => simp [breaks_append, h.not_breaks]
  | append _ _ ih ih' => simp [breaks_append, ih, ih', or_and_right, exists_or]

end Woven

def StartsLine (s : String) : Prop := [' ', '*'] <+: s.toList

instance (s : String) : Decidable (StartsLine s) := inferInstanceAs (Decidable (_ <+: _))

theorem StartsLine.append {s : String} (h : StartsLine s) (t : String) : StartsLine (s ++ t) := by
  rw [StartsLine, String.toList_append]
  exact h.trans (List.prefix_append _ _)

/-- Whole lines, each of which starts as the lines of a doc comment do. -/
structure DocLines (s : String) : Prop where
  starts : ∀ before line : List Char, s.toList = before ++ line → (∀ c ∈ before.getLast?, c = '\n') → line ≠ [] →
    [' ', '*'] <+: line
  ends : ∀ c ∈ s.toList.getLast?, c = '\n'

namespace DocLines

theorem nil : DocLines "" where
  starts before line h _ hne := by
    rw [String.toList_empty] at h
    exact absurd (List.append_eq_nil_iff.1 h.symm).2 hne
  ends := by simp

theorem append {s t : String} (hs : DocLines s) (ht : DocLines t) : DocLines (s ++ t) where
  starts before line h hbefore hne := by
    rw [String.toList_append, List.append_eq_append_iff] at h
    -- a line that starts in the second text, or one that starts in the first and may go on in the second
    rcases h with ⟨ds, hd, htail⟩ | ⟨cs, hc, hline⟩
    · refine ht.starts ds line htail ?_ hne
      intro c hc
      exact hbefore c (by rw [hd, List.getLast?_append, Option.mem_def.1 hc, Option.some_or, Option.mem_some])
    · cases cs with
      | nil =>
        rw [List.nil_append] at hline
        exact ht.starts [] line hline.symm (by simp) hne
      | cons c cs =>
        rw [hline]
        exact (hs.starts before _ hc hbefore (by simp)).trans (List.prefix_append _ _)
  ends := by
    intro c hc
    rw [String.toList_append, List.getLast?_append, Option.mem_def, Option.or_eq_some_iff] at hc
    rcases hc with hc | ⟨_, hc⟩
    · exact ht.ends c hc
    · exact hs.ends c hc

theorem line {s : String} {b : List Char} (h : s.toList = b ++ ['\n']) (hb : '\n' ∉ b) (hs : StartsLine s) :
    DocLines s where
  starts before line hsplit hbefore hne := by
    -- the only newline ends the line, so none comes before another line
    have hmem : '\n' ∉ before := by
      rw [h, List.append_eq_append_iff] at hsplit
      rcases hsplit with ⟨ds, rfl, hd⟩ | ⟨ds, rfl, _⟩
      · rcases List.singleton_eq_append_iff.1 hd with ⟨rfl, _⟩ | ⟨_, rfl⟩
        · simpa using hb
        · exact absurd rfl hne
      · exact fun hn => hb (List.mem_append_left _ hn)
    cases hlast : before.getLast? with
    | none =>
      obtain rfl := List.getLast?_eq_none_iff.1 hlast
      rw [List.nil_append] at hsplit
      rw [← hsplit]
      exact hs
    | some c =>
      obtain rfl := hbefore c hlast
      exact absurd (List.mem_of_getLast? hlast) hmem
  ends := by
    intro c hc
    simpa [h, eq_comm] using hc

end DocLines

def LineEnd (e : String) : Prop :=
  '/' ∉ e.toList ∧ '\n' ∉ e.toList.dropLast ∧ e.toList.getLast? = some '\n'

instance (e : String) : Decidable (LineEnd e) := inferInstanceAs (Decidable (_ ∧ _ ∧ _))

/-- Doc lines around texts in their order. -/
inductive DocBlock : List String → String → Prop
  | nil : DocBlock [] ""
  | fixed {l : String} (h : LineEnd l) (hs : StartsLine l) : DocBlock [] l
  | text {ts : List String} {l : String} (h : Woven ts l) (hs : StartsLine l) (t : String) {e : String}
      (he : LineEnd e) : DocBlock (ts ++ [t]) (l ++ t ++ e)
  | append {ts us : List String} {s s' : String} (h : DocBlock ts s) (h' : DocBlock us s') :
      DocBlock (ts ++ us) (s ++ s')

namespace LineEnd

variable {e : String}

theorem toList_eq (h : LineEnd e) : e.toList = e.toList.dropLast ++ ['\n'] :=
  (List.dropLast_append_getLast? _ h.2.2).symm

theorem not_closes (h : LineEnd e) : ¬ Closes e := not_closes_of_notMem (.inr rfl) h.1

theorem head?_ne (h : LineEnd e) : e.toList.head? ≠ some '/' := fun he => h.1 (List.mem_of_head? he)

end LineEnd

namespace DocBlock

variable {ts : List String} {s : String}

theorem join {f : α → List String} {g : α → String} (h : ∀ a, DocBlock (f a) (g a)) (as : List α) :
    DocBlock (as.flatMap f) (String.join (as.map g)) :=
  join_induction .nil .append h as

theorem getLast?_ne (h : DocBlock ts s) : s.toList.getLast? ≠ some '*' := by
  induction h with
  | nil => simp
  | fixed h => simp [h.2.2]
  | text _ _ _ he => simp [String.toList_append, List.getLast?_append, he.2.2]
  | append _ _ ih ih' => exact getLast?_append_ne ih ih'

theorem closes_iff (h : DocBlock ts s) : Closes s ↔ ∃ t ∈ ts, Closes t := by
  induction h with
  | nil => simp [Closes]
  | fixed h => simp [h.not_closes]
  | text h _ t he =>
    simp [closes_append, he.not_closes, he.head?_ne, h.getLast?_ne, h.closes_iff, or_and_right, exists_or]
  | append h _ ih ih' => simp [closes_append, h.getLast?_ne, ih, ih', or_and_right, exists_or]

theorem docLines (h : DocBlock ts s) (hts : ∀ t ∈ ts, ¬ Breaks t) : DocLines s := by
  induction h with
  | nil => exact .nil
  | fixed h hs => exact .line h.toList_eq h.2.1 hs
  | @text us l h hs t e he =>
    have hl : ¬ Breaks l := fun hl => by
      obtain ⟨u, hu, hbreaks⟩ := h.breaks_iff.1 hl
      exact hts u (List.mem_append_left _ hu) hbreaks
    have ht : ¬ Breaks t := hts t (List.mem_append_right _ (List.mem_singleton_self t))
    refine .line (b := l.toList ++ t.toList ++ e.toList.dropLast) ?_ ?_ ?_
    · rw [String.toList_append, String.toList_append, he.toList_eq]
      simp
    · simp only [List.mem_append, not_or]
      exact ⟨⟨hl, ht⟩, he.2.1⟩
    · exact (hs.append t).append e
  | append _ _ ih ih' =>
    refine (ih fun t ht => ?_).append (ih' fun t ht => ?_)
    · exact hts t (List.mem_append_left _ ht)
    · exact hts t (List.mem_append_right _ ht)

end DocBlock

end Autodoc
