import Autodoc.Proofs.TaggedLines

namespace Autodoc

section Split

variable {p : Char → Bool} {u v s t f g : String} {d : Char}

def StopsAt (p : Char → Bool) (s : String) : Prop := ∀ c ∈ s.toList.head?, p c = false

theorem StopsAt.append (h : f.toList.head?.any (!p ·) = true) (s : String) : StopsAt p (f ++ s) := by
  obtain ⟨c, hc, hp⟩ := (Option.any_eq_true _ _).1 h
  intro b hb
  rw [String.toList_append, List.head?_append, hc, Option.some_or, Option.mem_some] at hb
  simpa [hb] using hp

/-- Two texts that go on as far as the characters are of a kind are the same, and so is what follows them. -/
theorem append_inj_of_stopsAt (hu : ∀ c ∈ u.toList, p c = true) (hv : ∀ c ∈ v.toList, p c = true)
    (hs : StopsAt p s) (ht : StopsAt p t) (h : u ++ s = v ++ t) : u = v ∧ s = t := by
  have htake {w r : String} (hw : ∀ c ∈ w.toList, p c = true) (hr : StopsAt p r) :
      (w ++ r).toList.takeWhile p = w.toList := by
    rw [String.toList_append, List.takeWhile_append_of_pos hw]
    cases hrest : r.toList with
    | nil => simp
    | cons c cs =>
      have hc : p c = false := hr c (by rw [hrest]; rfl)
      simp [hc]
  have huv : u = v := by
    rw [← String.toList_inj, ← htake hu hs, h, htake hv ht]
  subst huv
  exact ⟨rfl, (String.append_right_inj u).1 h⟩

theorem append_inj_of_notMem (hu : d ∉ u.toList) (hv : d ∉ v.toList) (hf : f.toList.head? = some d)
    (hg : g.toList.head? = some d) (h : u ++ (f ++ s) = v ++ (g ++ t)) : u = v ∧ f ++ s = g ++ t := by
  have hother {w : String} (hw : d ∉ w.toList) : ∀ c ∈ w.toList, decide (c ≠ d) = true := by
    intro c hc
    exact decide_eq_true (ne_of_mem_of_not_mem hc hw)
  apply append_inj_of_stopsAt (p := fun c => decide (c ≠ d)) (hother hu) (hother hv) (.append ?_ s) (.append ?_ t) h
  · simp [hf]
  · simp [hg]

end Split

def IsWord (s : String) : Prop := s ≠ "" ∧ ∀ c ∈ s.toList, isWordChar c = true

instance (s : String) : Decidable (IsWord s) :=
  decidable_of_iff (s ≠ "" ∧ s.toList.all isWordChar = true) (by rw [List.all_eq_true, IsWord])

/-- Text that may stand for a type: there is some, without the signs that tell a type from what follows. -/
def IsTypeText (s : String) : Prop := s ≠ "" ∧ '$' ∉ s.toList ∧ '(' ∉ s.toList

instance (s : String) : Decidable (IsTypeText s) := inferInstanceAs (Decidable (_ ∧ _))

/-- Whatever follows, the text of something legible tells what it is of and where it ends. -/
def Delimits (legible : α → Prop) (f : α → String) : Prop :=
  ∀ {a b : α} {s t : String}, legible a → legible b → f a ++ s = f b ++ t → a = b ∧ s = t

/-- The text does not go on with that of something legible. -/
def Ends (legible : α → Prop) (f : α → String) (s : String) : Prop := ∀ a, legible a → ∀ u, s ≠ f a ++ u

theorem Delimits.join {legible : α → Prop} {f : α → String} (h : Delimits legible f) {s t : String}
    (hs : Ends legible f s) (ht : Ends legible f t) {as bs : List α} (has : ∀ a ∈ as, legible a)
    (hbs : ∀ b ∈ bs, legible b) (heq : String.join (as.map f) ++ s = String.join (bs.map f) ++ t) :
    as = bs ∧ s = t := by
  induction as generalizing bs with
  | nil =>
    cases bs with
    | nil => simpa using heq
    | cons b bs =>
      rw [List.map_nil, String.join_nil, String.empty_append, List.map_cons, String.join_cons,
        String.append_assoc] at heq
      exact absurd heq (hs b (hbs b List.mem_cons_self) _)
  | cons a as ih =>
    obtain ⟨ha, hrest⟩ := List.forall_mem_cons.1 has
    rw [List.map_cons, String.join_cons, String.append_assoc] at heq
    cases bs with
    | nil =>
      rw [List.map_nil, String.join_nil, String.empty_append] at heq
      exact absurd heq.symm (ht a ha _)
    | cons b bs =>
      obtain ⟨hb, hrest'⟩ := List.forall_mem_cons.1 hbs
      rw [List.map_cons, String.join_cons, String.append_assoc] at heq
      obtain ⟨hhead, htail⟩ := h ha hb heq
      obtain ⟨hlists, hst⟩ := ih hrest hrest' htail
      exact ⟨by rw [hhead, hlists], hst⟩

/-- Text that starts apart from a mark does not go on with what starts with the mark. -/
theorem Ends.of_apart {legible : α → Prop} {f : α → String} {mark start : String} (hmark : ∀ a, StartsWith mark (f a))
    (h : Apart mark start) (rest : String) : Ends legible f (start ++ rest) := by
  intro a _ u heq
  apply h.append rest
  rw [heq, StartsWith, String.toList_append]
  exact (hmark a).trans (List.prefix_append _ _)

theorem append_inj_of_isWord {u v s t f g : String} (hu : IsWord u) (hv : IsWord v)
    (hf : f.toList.head?.any (!isWordChar ·) = true) (hg : g.toList.head?.any (!isWordChar ·) = true)
    (h : u ++ (f ++ s) = v ++ (g ++ t)) : u = v ∧ f ++ s = g ++ t :=
  append_inj_of_stopsAt hu.2 hv.2 (.append hf s) (.append hg t) h

theorem IsWord.notMem {s : String} (h : IsWord s) {c : Char} (hc : isWordChar c = false) : c ∉ s.toList := by
  intro hmem
  rw [h.2 c hmem] at hc
  cases hc

namespace Signature

def LegibleParam (p : Param) : Prop := IsTypeText p.host ∧ IsWord p.name

def LegibleEnumRef (e : EnumRef) : Prop := IsTypeText e.enum ∧ IsWord e.param

def LegibleOutput (o : OutputDoc) : Prop :=
  IsWord o.name ∧ (IsTypeText o.host ∧ ' ' ∉ o.host.toList) ∧ ¬ Breaks o.blurb

theorem dollar_notMem_spaced {host : String} (h : IsTypeText host) : '$' ∉ (host ++ " ").toList := by
  rw [String.toList_append, List.mem_append, not_or]
  exact ⟨h.2.1, by decide⟩

theorem paramText_append (p : Param) (s : String) :
    paramText p ++ s = (p.host ++ " ") ++ ("$" ++ (p.name ++ (", " ++ s))) := by
  have hsplit : " $" = " " ++ "$" := by decide
  rw [paramText, hsplit]
  simp only [String.append_assoc]

theorem delimits_paramText : Delimits LegibleParam paramText := by
  intro p q s t hp hq h
  rw [paramText_append, paramText_append] at h
  obtain ⟨hhost, hafter⟩ := append_inj_of_notMem (dollar_notMem_spaced hp.1) (dollar_notMem_spaced hq.1) rfl rfl h
  rw [String.append_right_inj] at hafter
  obtain ⟨hname, hrest⟩ := append_inj_of_isWord hp.2 hq.2 (by decide) (by decide) hafter
  exact ⟨congrArg₂ Param.mk hname ((String.append_left_inj _).1 hhost), (String.append_right_inj _).1 hrest⟩

theorem optionsText_append (s : String) : "array $options = []) " ++ s =
    ("array" ++ " ") ++ ("$" ++ ("options" ++ (" = []) " ++ s))) := by
  have hsplit : "array $options = []) " = "array" ++ " " ++ "$" ++ "options" ++ " = []) " := by decide
  rw [hsplit]
  simp only [String.append_assoc]

/-- A parameter called `options` goes on otherwise than the one that ends the list. -/
theorem ends_params (s : String) : Ends LegibleParam paramText ("array $options = []) " ++ s) := by
  intro p hp u h
  rw [paramText_append, optionsText_append] at h
  obtain ⟨_, hafter⟩ := append_inj_of_notMem (by decide) (dollar_notMem_spaced hp.1) rfl rfl h
  rw [String.append_right_inj] at hafter
  obtain ⟨_, hrest⟩ := append_inj_of_isWord (by decide) hp.2 (by decide) (by decide) hafter
  have hheads := congrArg (·.toList.head?) hrest
  simp at hheads

theorem enumRefText_append (e : EnumRef) (s : String) : enumRefText e ++ s =
    " *     @see " ++ ((e.enum ++ " for possible values for ") ++ ("$" ++ (e.param ++ ("\n" ++ s)))) := by
  have hsplit : " for possible values for $" = " for possible values for " ++ "$" := by decide
  delta enumRefText
  rw [hsplit]
  simp only [String.append_assoc]

theorem delimits_enumRefText : Delimits LegibleEnumRef enumRefText := by
  intro e f s t he hf h
  have hplain {enum : String} (henum : IsTypeText enum) : '$' ∉ (enum ++ " for possible values for ").toList := by
    rw [String.toList_append, List.mem_append, not_or]
    exact ⟨henum.2.1, by decide⟩
  rw [enumRefText_append, enumRefText_append, String.append_right_inj] at h
  obtain ⟨henum, hafter⟩ := append_inj_of_notMem (hplain he.1) (hplain hf.1) rfl rfl h
  rw [String.append_right_inj] at hafter
  obtain ⟨hparam, hrest⟩ := append_inj_of_isWord he.2 hf.2 (by decide) (by decide) hafter
  exact ⟨congrArg₂ EnumRef.mk ((String.append_left_inj _).1 henum) hparam, (String.append_right_inj _).1 hrest⟩

theorem outputText_append (o : OutputDoc) (s : String) : outputText o ++ s =
    " *         '" ++ (o.name ++ ("' => @type " ++ (o.host ++ (" " ++ (o.blurb ++ ("\n" ++ s)))))) := by
  delta outputText
  simp only [String.append_assoc]

theorem delimits_outputText : Delimits LegibleOutput outputText := by
  intro o o' s t ho ho' h
  rw [outputText_append, outputText_append, String.append_right_inj] at h
  obtain ⟨hname, htyped⟩ := append_inj_of_isWord ho.1 ho'.1 (by decide) (by decide) h
  rw [String.append_right_inj] at htyped
  obtain ⟨hhost, htold⟩ := append_inj_of_notMem ho.2.1.2 ho'.2.1.2 rfl rfl htyped
  rw [String.append_right_inj] at htold
  obtain ⟨hblurb, hrest⟩ := append_inj_of_notMem ho.2.2 ho'.2.2 rfl rfl htold
  exact ⟨congr (congrArg₂ OutputDoc.mk hname hhost) hblurb, (String.append_right_inj _).1 hrest⟩

theorem startsWith_enumRefText (e : EnumRef) : StartsWith " *     @see " (enumRefText e) := by
  rw [← String.append_empty (s := enumRefText e), enumRefText_append]
  exact startsWith_append _ _

theorem startsWith_outputText (o : OutputDoc) : StartsWith " *         '" (outputText o) := by
  rw [← String.append_empty (s := outputText o), outputText_append]
  exact startsWith_append _ _

theorem outputsText_cons (o : OutputDoc) (os : List OutputDoc) (s : String) : outputsText (o :: os) ++ s =
    " *     Return array with: [\n" ++ (String.join ((o :: os).map outputText) ++ (" *     ];\n" ++ s)) := by
  rw [outputsText, if_neg (by simp)]
  simp only [String.append_assoc]

theorem ends_enumRefs (os : List OutputDoc) :
    Ends LegibleEnumRef enumRefText (outputsText os ++ " *     @throws Exception\n") := by
  cases os with
  | nil =>
    have happart : Apart " *     @see " " *     @throws" := by decide
    exact .of_apart startsWith_enumRefText happart " Exception\n"
  | cons o os =>
    rw [outputsText_cons]
    exact .of_apart startsWith_enumRefText (by decide) _

theorem outputsText_inj {os os' : List OutputDoc} (hos : ∀ o ∈ os, LegibleOutput o) (hos' : ∀ o ∈ os', LegibleOutput o)
    (h : outputsText os ++ " *     @throws Exception\n" = outputsText os' ++ " *     @throws Exception\n") :
    os = os' := by
  have happart (o : OutputDoc) (os : List OutputDoc) :
      outputsText (o :: os) ++ " *     @throws Exception\n" ≠ outputsText [] ++ " *     @throws Exception\n" := by
    intro h
    have hmark : Apart " *     @throws Exception\n" " *     Return array with: [\n" := by decide
    have hstarts : StartsWith " *     @throws Exception\n" (outputsText [] ++ " *     @throws Exception\n") := by decide
    rw [← h, outputsText_cons] at hstarts
    exact hmark.append _ hstarts
  cases os with
  | nil =>
    cases os' with
    | nil => rfl
    | cons o' os' => exact absurd h.symm (happart o' os')
  | cons o os =>
    cases os' with
    | nil => exact absurd h (happart o os)
    | cons o' os' =>
      rw [outputsText_cons, outputsText_cons, String.append_right_inj] at h
      have hends : Ends LegibleOutput outputText (" *     ];\n" ++ " *     @throws Exception\n") :=
        .of_apart startsWith_outputText (by decide) _
      exact (delimits_outputText.join hends hends hos hos' h).1

/-- A signature whose parts can be told apart where it is shown. -/
structure Legible (s : Signature) : Prop where
  lines : ∀ t ∈ s.texts, ¬ Breaks t
  name : IsWord s.name
  returned : ∀ host, s.returns = .single host → IsTypeText host ∧ host ≠ "void" ∧ ¬ StartsWith "static " host
  params : ∀ p ∈ s.params, IsTypeText p.host ∧ IsWord p.name
  enumRefs : ∀ e ∈ s.enumRefs, IsTypeText e.enum ∧ IsWord e.param
  outputs : ∀ o ∈ s.outputs, IsWord o.name ∧ IsTypeText o.host ∧ ' ' ∉ o.host.toList
  entries : s.outputs ≠ [] ↔ s.returns = .aggregate

end Signature

def ReturnType.word : ReturnType → String
  | .void => "void"
  | .single host => host
  | .aggregate => "array"

namespace Signature

variable {a b : Signature}

theorem returnText_eq_word (r : ReturnType) : returnText r = r.word ++ " " := by
  cases r with
  | void => decide
  | single host => rfl
  | aggregate => decide

theorem line_append (s : Signature) : s.line = methodMark ++ (((if s.isStatic then "static " else "") ++
    s.returns.word ++ (" " ++ s.name)) ++ ("(" ++ (String.join (s.params.map paramText) ++
      ("array $options = []) " ++ (s.summary ++ "."))))) := by
  rw [line, returnText_eq_word]
  simp only [String.append_assoc]

theorem isStatic_inj {x y : Bool} {v w : String} (hv : ¬ StartsWith "static " v) (hw : ¬ StartsWith "static " w)
    (h : (if x then "static " else "") ++ v = (if y then "static " else "") ++ w) : x = y ∧ v = w := by
  cases x with
  | false =>
    rw [if_neg Bool.false_ne_true, String.empty_append] at h
    cases y with
    | false => exact ⟨rfl, by rw [h, if_neg Bool.false_ne_true, String.empty_append]⟩
    | true => exact absurd (h ▸ startsWith_append _ _) hv
  | true =>
    rw [if_pos rfl] at h
    cases y with
    | false =>
      rw [if_neg Bool.false_ne_true, String.empty_append] at h
      exact absurd (h ▸ startsWith_append _ _) hw
    | true => exact ⟨rfl, (String.append_right_inj _).1 h⟩

namespace Legible

theorem paren_notMem_word (h : a.Legible) : '(' ∉ a.returns.word.toList := by
  cases hr : a.returns with
  | void => decide
  | single host => exact (h.returned host hr).1.2.2
  | aggregate => decide

theorem not_startsWith_word (h : a.Legible) : ¬ StartsWith "static " a.returns.word := by
  cases hr : a.returns with
  | void => decide
  | single host => exact (h.returned host hr).2.2
  | aggregate => decide

/-- A type called `array` is told from several outputs by their entries. -/
theorem returns_inj (ha : a.Legible) (hb : b.Legible) (hentries : a.outputs = b.outputs)
    (h : a.returns.word = b.returns.word) : a.returns = b.returns := by
  have haggregate : a.returns = .aggregate ↔ b.returns = .aggregate := by rw [← ha.entries, hentries, hb.entries]
  cases hra : a.returns with
  | aggregate => exact (haggregate.1 hra).symm
  | void =>
    cases hrb : b.returns with
    | void => rfl
    | single host =>
      rw [hra, hrb] at h
      exact absurd h.symm (hb.returned host hrb).2.1
    | aggregate => exact hra ▸ haggregate.2 hrb
  | single host =>
    cases hrb : b.returns with
    | void =>
      rw [hra, hrb] at h
      exact absurd h (ha.returned host hra).2.1
    | single host' =>
      rw [hra, hrb] at h
      exact congrArg ReturnType.single h
    | aggregate => exact hra ▸ haggregate.2 hrb

theorem legibleOutputs (h : a.Legible) : ∀ o ∈ a.outputs, LegibleOutput o := by
  intro o ho
  refine ⟨(h.outputs o ho).1, (h.outputs o ho).2, h.lines _ ?_⟩
  rw [texts, List.mem_append, List.mem_flatMap]
  exact .inr ⟨o, ho, by simp⟩

theorem details_inj (ha : a.Legible) (hb : b.Legible) (h : a.details = b.details) :
    a.enumRefs = b.enumRefs ∧ a.outputs = b.outputs := by
  rw [details, details, String.append_assoc, String.append_assoc] at h
  obtain ⟨hrefs, houtputs⟩ := delimits_enumRefText.join (ends_enumRefs _) (ends_enumRefs _) ha.enumRefs hb.enumRefs h
  exact ⟨hrefs, outputsText_inj ha.legibleOutputs hb.legibleOutputs houtputs⟩

theorem name_inj (ha : a.Legible) (hb : b.Legible) (h : a.line = b.line) : a.name = b.name := by
  have hname {s : Signature} (hs : s.Legible) : methodName s.line = s.name := by
    apply methodName_line
    · rw [returnText_eq_word, String.toList_append, List.mem_append, not_or]
      exact ⟨hs.paren_notMem_word, by decide⟩
    · exact ⟨hs.name.notMem (by decide), hs.name.notMem (by decide)⟩
  rw [← hname ha, h, hname hb]

theorem paren_notMem_declared (h : a.Legible) :
    '(' ∉ ((if a.isStatic then "static " else "") ++ a.returns.word ++ (" " ++ a.name)).toList := by
  have hstatic : '(' ∉ (if a.isStatic then "static " else "").toList := by cases a.isStatic <;> decide
  have hspace : '(' ∉ " ".toList := by decide
  have hname : '(' ∉ a.name.toList := h.name.notMem (by decide)
  simp only [String.toList_append, List.mem_append, hstatic, h.paren_notMem_word, hspace, hname, or_self,
    not_false_eq_true]

theorem line_inj (ha : a.Legible) (hb : b.Legible) (h : a.line = b.line) :
    a.isStatic = b.isStatic ∧ a.returns.word = b.returns.word ∧ a.params = b.params ∧ a.summary = b.summary := by
  have hname := name_inj ha hb h
  rw [line_append, line_append, String.append_right_inj] at h
  obtain ⟨hdeclared, hlisted⟩ := append_inj_of_notMem ha.paren_notMem_declared hb.paren_notMem_declared rfl rfl h
  rw [hname, String.append_left_inj] at hdeclared
  rw [String.append_right_inj] at hlisted
  obtain ⟨hparams, hrest⟩ := delimits_paramText.join (ends_params _) (ends_params _) ha.params hb.params hlisted
  rw [String.append_right_inj, String.append_left_inj] at hrest
  obtain ⟨hstatic, hword⟩ := isStatic_inj ha.not_startsWith_word hb.not_startsWith_word hdeclared
  exact ⟨hstatic, hword, hparams, hrest⟩

end Legible

/-- Signatures that can be read are told apart by their doc lines. -/
theorem render_inj (ha : a.Legible) (hb : b.Legible) : a.render = b.render ↔ a = b := by
  refine ⟨fun h => ?_, congrArg render⟩
  rw [render_eq, render_eq, String.append_assoc, String.append_assoc] at h
  obtain ⟨hline, hafter⟩ := append_inj_of_notMem (not_breaks_line ha.lines) (not_breaks_line hb.lines) rfl rfl h
  obtain ⟨hrefs, houtputs⟩ := ha.details_inj hb ((String.append_right_inj _).1 hafter)
  obtain ⟨hstatic, hword, hparams, hsummary⟩ := ha.line_inj hb hline
  have hreturns := ha.returns_inj hb houtputs hword
  have hname := ha.name_inj hb hline
  cases a
  cases b
  rw [Signature.mk.injEq]
  exact ⟨hstatic, hreturns, hname, hparams, hsummary, hrefs, houtputs⟩

/-- What is declared looks much like the fixed text around it. -/
def lookalike (returns : ReturnType) (outputs : List OutputDoc) : Signature where
  isStatic := true
  returns
  name := "void"
  params := [⟨"options", "array"⟩]
  summary := "Array $options = []) and more."
  enumRefs := [⟨"Kind for possible values for", "options"⟩]
  outputs

theorem render_inj_lookalike : (lookalike (.single "array") []).Legible ∧
    (lookalike .aggregate [⟨"options", "array", "]; @throws Exception"⟩]).Legible ∧
    (lookalike (.single "array") []).render ≠
      (lookalike .aggregate [⟨"options", "array", "]; @throws Exception"⟩]).render := by
  have hsingle : (lookalike (.single "array") []).Legible :=
    { lines := by decide
      name := by decide
      returned := by
        rintro _ ⟨⟩
        decide
      params := by decide
      enumRefs := by decide
      outputs := by decide
      entries := by decide }
  have haggregate : (lookalike .aggregate [⟨"options", "array", "]; @throws Exception"⟩]).Legible :=
    { lines := by decide
      name := by decide
      returned := nofun
      params := by decide
      enumRefs := by decide
      outputs := by decide
      entries := by decide }
  exact ⟨hsingle, haggregate, mt (render_inj hsingle haggregate).1 (by decide)⟩

end Signature

end Autodoc
