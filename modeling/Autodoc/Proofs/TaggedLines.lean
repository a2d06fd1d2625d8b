import Autodoc.Proofs.DocComment
import Autodoc.Proofs.MarkedLines

namespace Autodoc

def methodMark : String := " * @method "

def propertyMark : String := " * @property "

/-- The last word of a line before its first parenthesis. -/
def methodName (line : String) : String :=
  String.ofList (((line.toList.takeWhile (· ≠ '(')).splitOn ' ').getLastD [])

theorem methodName_eq {before name after : String} (hbefore : '(' ∉ before.toList) (hname : '(' ∉ name.toList)
    (hspace : ' ' ∉ name.toList) : methodName (before ++ " " ++ name ++ "(" ++ after) = name := by
  have hline : (before ++ " " ++ name ++ "(" ++ after).toList =
      (before.toList ++ ' ' :: name.toList) ++ '(' :: after.toList := by
    simp
  have hword : (before.toList ++ ' ' :: name.toList).takeWhile (· ≠ '(') = before.toList ++ ' ' :: name.toList := by
    rw [List.takeWhile_eq_self_iff]
    intro c hc
    have hne : c ≠ '(' := by
      rintro rfl
      simp [hbefore, hname] at hc
    exact decide_eq_true hne
  have hall := List.takeWhile_eq_self_iff.1 hword
  rw [methodName, hline, List.takeWhile_append_of_pos hall, List.takeWhile_cons_of_neg (by simp), List.append_nil,
    List.splitOn_append_cons_self, List.splitOn_eq_singleton hspace, List.getLastD_concat, String.ofList_toList]

/-- The characters of a literal are had without decoding it. -/
theorem notMem_of_eq_ofList {s : String} {cs : List Char} {c : Char} (h : s = String.ofList cs) (hc : c ∉ cs) :
    c ∉ s.toList := by
  rw [h, String.toList_ofList]
  exact hc

def Aside (start : String) : Prop := ¬ Breaks start ∧ Apart methodMark start ∧ Apart propertyMark start

instance (start : String) : Decidable (Aside start) := inferInstanceAs (Decidable (_ ∧ _))

/-- None of the lines looks like one of a method or a property. -/
def Silent (s : String) : Prop := Listing methodMark [] s ∧ Listing propertyMark [] s

namespace Silent

variable {s s' : String}

theorem append (h : Silent s) (h' : Silent s') : Silent (s ++ s') := ⟨h.1.append h'.1, h.2.append h'.2⟩

theorem join {f : α → String} {as : List α} (h : ∀ a ∈ as, Silent (f a)) : Silent (String.join (as.map f)) :=
  ⟨.join_nil fun a ha => (h a ha).1, .join_nil fun a ha => (h a ha).2⟩

theorem nil : Silent "" := ⟨.nil _, .nil _⟩

theorem fixed (hend : s.toList.getLast? = some '\n')
    (h : linesFrom methodMark s = [] ∧ linesFrom propertyMark s = []) : Silent s := by
  constructor
  · exact h.1 ▸ .fixed (by decide) hend
  · exact h.2 ▸ .fixed (by decide) hend

theorem text {start t e : String} (hstart : Aside start) (ht : ¬ Breaks t) (r more : String)
    (he : e = r ++ "\n" ++ more) (hr : ¬ Breaks r) (hmore : Silent more) : Silent (start ++ t ++ e) := by
  rw [he]
  exact ⟨.apart hstart.2.1 hstart.1 ht hr hmore.1, .apart hstart.2.2 hstart.1 ht hr hmore.2⟩

theorem line (start : String) {t : String} (hstart : Aside start) (ht : ¬ Breaks t) : Silent (start ++ t ++ "\n") :=
  text hstart ht "" "" (by decide) (by decide) nil

theorem unmarked {l : String} (hl : ¬ Breaks l) (hat : '@' ∉ l.toList) : Silent (l ++ "\n") := by
  constructor
  · exact .other hl fun hm => hat (hm.subset (by decide))
  · exact .other hl fun hm => hat (hm.subset (by decide))

end Silent

namespace HeaderConfig

variable {h : HeaderConfig} {package : String}

theorem silent_tagLine {tag value : String} (htag : Aside (" * @" ++ tag ++ "".pushn ' ' (9 - tag.length) ++ " "))
    (hv : ¬ Breaks value) : Silent (tagLine tag value) := by
  rw [tagLine]
  exact .line _ htag hv

theorem not_breaks_holder (ht : ∀ t ∈ h.texts, ¬ Breaks t) : ¬ Breaks h.holder := by
  have hyear := ht h.copyrightYear (by simp [texts])
  have hname := ht h.copyrightHolder (by simp [texts])
  simp [holder, breaks_flaw.spaced, hyear, hname]

theorem silent_classTags (ht : ∀ t ∈ h.texts, ¬ Breaks t) (hp : ¬ Breaks package) :
    Silent (h.classTags package) := by
  have hcategory : Silent (tagLine "category" h.category) :=
    silent_tagLine (by decide) (ht _ (by simp [texts]))
  have hpackage : Silent (tagLine "package" package) := silent_tagLine (by decide) hp
  have hauthor : Silent (tagLine "author" h.author) := silent_tagLine (by decide) (ht _ (by simp [texts]))
  have hcopyright : Silent (tagLine "copyright" h.holder) :=
    silent_tagLine (by decide) (not_breaks_holder ht)
  have hlicense : Silent (tagLine "license" h.license) := silent_tagLine (by decide) (ht _ (by simp [texts]))
  have hlink : Silent (tagLine "link" h.link) := silent_tagLine (by decide) (ht _ (by simp [texts]))
  exact ((((hcategory.append hpackage).append hauthor).append hcopyright).append hlicense).append hlink

theorem silent_licenseLines : Silent (String.join (licenseLines.map docLine)) := by
  have hlines : ∀ text ∈ licenseLines, ¬ Breaks text ∧ '@' ∉ text.toList := by
    simp only [licenseLines, List.forall_mem_cons, List.not_mem_nil, false_imp_iff, implies_true, and_true]
    and_intros
    all_goals exact notMem_of_eq_ofList rfl (by decide)
  apply Silent.join
  intro text htext
  obtain ⟨hbreaks, hat⟩ := hlines text htext
  rw [docLine]
  split
  · exact .fixed (by decide) (by decide)
  · refine .unmarked ?_ ?_
    · rw [breaks_append, not_or]
      exact ⟨by decide, hbreaks⟩
    · simp [hat]

theorem silent_preamble (ht : ∀ t ∈ h.texts, ¬ Breaks t) (hp : ¬ Breaks package) : Silent (h.preamble package) := by
  have hopening : Silent ("<?php\n\n/**\n" ++ " * This file was generated automatically. Do not edit!\n *\n") :=
    .append (.fixed (by decide) (by decide +kernel)) (.fixed (by decide) (by decide +kernel))
  have hblank : Silent " *\n" := .fixed (by decide) (by decide +kernel)
  have hversion : Silent (" * PHP version " ++ h.phpVersion ++ "\n *\n") :=
    .text (by decide) (ht _ (by simp [texts])) "" " *\n" (by decide) (by decide) hblank
  have hlicense : Silent " * LICENSE:\n *\n" := .fixed (by decide) (by decide +kernel)
  have hcopyright : Silent (" * Copyright (c) " ++ h.holder ++ "\n *\n") :=
    .text (by decide) (not_breaks_holder ht) "" " *\n" (by decide) (by decide) hblank
  have hclosing : Silent " */\n" := .fixed (by decide) (by decide +kernel)
  have hlines := ((((((hopening.append hversion).append hlicense).append hcopyright).append
    silent_licenseLines).append hblank).append (silent_classTags ht hp)).append hclosing
  delta preamble
  simpa only [String.append_assoc] using hlines

end HeaderConfig

theorem Config.exists_silent {c : Config} (hc : ∀ t ∈ c.texts, ¬ Breaks t) : ∃ before after, Silent before ∧
    Silent after ∧ ∀ lines, c.commented (" * Autodocs for the Image class.\n" ++
      (c.header.classTags c.hostNamespace ++ lines)) = before ++ lines ++ after := by
  have hheader : ∀ t ∈ c.header.texts, ¬ Breaks t := fun t ht => hc t (List.mem_append_right _ ht)
  have hname : ¬ Breaks c.hostNamespace := hc _ (by simp [texts])
  have hpreamble := HeaderConfig.silent_preamble hheader hname
  have hnewline : Silent "\n" := .fixed (by decide) (by decide)
  have hopening : Silent "\n/**\n" := .fixed (by decide) (by decide)
  have hnamespace : Silent ("namespace " ++ c.hostNamespace ++ ";\n\n/**\n") :=
    .text (by decide) hname ";" "\n/**\n" (by decide) (by decide) hopening
  have htitle : Silent " * Autodocs for the Image class.\n" := .fixed (by decide) (by decide +kernel)
  have htags := HeaderConfig.silent_classTags hheader hname
  have hclosing : Silent " */\n" := .fixed (by decide) (by decide)
  have hbraces : Silent "\x7b\n\x7d\n" := .fixed (by decide) (by decide)
  have hclass : Silent ("abstract class " ++ c.autodocClass ++ "\n\x7b\n\x7d\n") :=
    .text (by decide) (hc _ (by simp [texts])) "" "\x7b\n\x7d\n" (by decide) (by decide) hbraces
  refine ⟨_, _, (((hpreamble.append hnewline).append hnamespace).append htitle).append htags,
    hclosing.append hclass, ?_⟩
  intro lines
  have hbreak : "\nnamespace " = "\n" ++ "namespace " := by decide
  delta Config.commented
  rw [hbreak]
  simp only [String.append_assoc, -String.reduceAppend]

theorem Woven.not_breaks {ts : List String} {s : String} (h : Woven ts s) (hts : ∀ t ∈ ts, ¬ Breaks t) :
    ¬ Breaks s := by
  rw [h.breaks_iff]
  rintro ⟨t, ht, hbreaks⟩
  exact hts t ht hbreaks

namespace Signature

variable {s : Signature}

def line (s : Signature) : String :=
  methodMark ++ (if s.isStatic then "static " else "") ++ returnText s.returns ++ s.name ++ "("
    ++ String.join (s.params.map paramText) ++ "array $options = []) " ++ s.summary ++ "."

def details (s : Signature) : String :=
  String.join (s.enumRefs.map enumRefText) ++ outputsText s.outputs ++ " *     @throws Exception\n"

theorem render_eq (s : Signature) : s.render = s.line ++ "\n" ++ s.details := by
  have hend : ".\n" = "." ++ "\n" := by decide
  delta render line details methodMark
  rw [hend]
  simp only [String.append_assoc, -String.reduceAppend]

theorem not_breaks_line (h : ∀ t ∈ s.texts, ¬ Breaks t) : ¬ Breaks s.line := by
  have hreturns : ¬ Breaks (returnText s.returns) :=
    (woven_returnText s.returns).not_breaks fun t ht => h t (by simp [texts, ht])
  have hparams : ¬ Breaks (String.join (s.params.map paramText)) :=
    (Woven.join woven_paramText s.params).not_breaks fun t ht => h t (by
      rw [texts]
      simp only [List.mem_append, ht, true_or, or_true])
  have hname : ¬ Breaks s.name := h _ (by simp [texts])
  have hsummary : ¬ Breaks s.summary := h _ (by simp [texts])
  have hmark : ¬ Breaks methodMark := by decide
  have hstatic : ¬ Breaks (if s.isStatic then "static " else "") := by cases s.isStatic <;> decide
  have hparen : ¬ Breaks "(" := by decide
  have hoptions : ¬ Breaks "array $options = []) " := by decide
  have hdot : ¬ Breaks "." := by decide
  simp only [line, breaks_append, hmark, hstatic, hreturns, hname, hparen, hparams, hoptions, hsummary, hdot,
    or_self, not_false_eq_true]

theorem silent_enumRefText {e : EnumRef} (henum : ¬ Breaks e.enum) (hparam : ¬ Breaks e.param) :
    Silent (enumRefText e) := by
  have hrest : ¬ Breaks (e.enum ++ (" for possible values for $" ++ e.param)) := by
    have hfor : ¬ Breaks " for possible values for $" := by decide
    simp only [breaks_append, henum, hfor, hparam, or_self, not_false_eq_true]
  have hline := Silent.line " *     @see " (by decide) hrest
  delta enumRefText
  simpa only [String.append_assoc] using hline

theorem silent_outputText {o : OutputDoc} (hname : ¬ Breaks o.name) (hhost : ¬ Breaks o.host)
    (hblurb : ¬ Breaks o.blurb) : Silent (outputText o) := by
  have hrest : ¬ Breaks (o.name ++ ("' => @type " ++ (o.host ++ (" " ++ o.blurb)))) := by
    have htype : ¬ Breaks "' => @type " := by decide
    have hspace : ¬ Breaks " " := by decide
    simp only [breaks_append, hname, htype, hhost, hspace, hblurb, or_self, not_false_eq_true]
  have hline := Silent.line " *         '" (by decide) hrest
  delta outputText
  simpa only [String.append_assoc] using hline

theorem silent_details (h : ∀ t ∈ s.texts, ¬ Breaks t) : Silent s.details := by
  have hrefs : Silent (String.join (s.enumRefs.map enumRefText)) := by
    apply Silent.join
    intro e he
    have htexts : e.enum ∈ s.texts ∧ e.param ∈ s.texts := by
      simp only [texts, List.mem_append, List.mem_flatMap]
      exact ⟨.inl (.inr ⟨e, he, by simp⟩), .inl (.inr ⟨e, he, by simp⟩)⟩
    exact silent_enumRefText (h _ htexts.1) (h _ htexts.2)
  have houtputs : Silent (String.join (s.outputs.map outputText)) := by
    apply Silent.join
    intro o ho
    have htexts : ∀ t ∈ [o.name, o.host, o.blurb], t ∈ s.texts := by
      intro t ht
      simp only [texts, List.mem_append, List.mem_flatMap]
      exact .inr ⟨o, ho, ht⟩
    exact silent_outputText (h _ (htexts _ (by simp))) (h _ (htexts _ (by simp))) (h _ (htexts _ (by simp)))
  have hblock : Silent (outputsText s.outputs) := by
    rw [outputsText]
    split
    · exact .nil
    · have hopening : Silent " *     Return array with: [\n" := .fixed (by decide) (by decide +kernel)
      have hclosing : Silent " *     ];\n" := .fixed (by decide) (by decide +kernel)
      exact (hopening.append houtputs).append hclosing
  have hthrows : Silent " *     @throws Exception\n" := .fixed (by decide) (by decide +kernel)
  exact (hrefs.append hblock).append hthrows

theorem listing_render (h : ∀ t ∈ s.texts, ¬ Breaks t) :
    Listing methodMark [s.line] s.render ∧ Listing propertyMark [] s.render := by
  have hline := not_breaks_line h
  have hdetails := silent_details h
  have hmark : s.line = methodMark ++ ((if s.isStatic then "static " else "") ++ (returnText s.returns ++ (s.name ++
      ("(" ++ (String.join (s.params.map paramText) ++ ("array $options = []) " ++ (s.summary ++ "."))))))) := by
    simp only [line, String.append_assoc]
  have hapart : Apart propertyMark methodMark := by decide
  rw [render_eq]
  constructor
  · refine (Listing.line hline ?_).append hdetails.1
    exact hmark ▸ startsWith_append _ _
  · exact (Listing.other hline (hmark ▸ hapart.append _)).append hdetails.2

theorem methodName_line (hreturns : '(' ∉ (returnText s.returns).toList)
    (hname : ' ' ∉ s.name.toList ∧ '(' ∉ s.name.toList) : methodName s.line = s.name := by
  obtain ⟨word, hword⟩ : ∃ word, returnText s.returns = word ++ " " := by
    cases s.returns with
    | void => exact ⟨"void", by decide⟩
    | single host => exact ⟨host, rfl⟩
    | aggregate => exact ⟨"array", by decide⟩
  have hline : s.line = (methodMark ++ (if s.isStatic then "static " else "") ++ word) ++ " " ++ s.name ++ "(" ++
      (String.join (s.params.map paramText) ++ "array $options = []) " ++ s.summary ++ ".") := by
    simp only [line, hword, String.append_assoc]
  have hbefore : '(' ∉ (methodMark ++ (if s.isStatic then "static " else "") ++ word).toList := by
    have hmark : '(' ∉ methodMark.toList := by decide
    have hstatic : '(' ∉ (if s.isStatic then "static " else "").toList := by cases s.isStatic <;> decide
    rw [hword, String.toList_append, List.mem_append, not_or] at hreturns
    simp only [String.toList_append, List.mem_append, hmark, hstatic, hreturns.1, or_self, not_false_eq_true]
  rw [hline, methodName_eq hbefore hname.2 hname.1]

end Signature

namespace PropertyDoc

variable {p : PropertyDoc}

def line (p : PropertyDoc) : String := propertyMark ++ p.host ++ " $" ++ p.name ++ " " ++ p.blurb

theorem listing_render (h : ∀ t ∈ p.texts, ¬ Breaks t) :
    Listing methodMark [] p.render ∧ Listing propertyMark [p.line] p.render := by
  obtain ⟨reference, hrender, hreference⟩ : ∃ reference, p.render = p.line ++ "\n" ++ reference ∧
      Silent reference := by
    refine ⟨_, rfl, ?_⟩
    split
    next => exact .nil
    next enum henum =>
      exact .text (by decide) (h enum (by simp [texts, henum])) " for possible values" "" (by decide) (by decide) .nil
  have hline : ¬ Breaks p.line := by
    have hhost : ¬ Breaks p.host := h _ (by simp [texts])
    have hname : ¬ Breaks p.name := h _ (by simp [texts])
    have hblurb : ¬ Breaks p.blurb := h _ (by simp [texts])
    have hmark : ¬ Breaks propertyMark := by decide
    have hdollar : ¬ Breaks " $" := by decide
    have hspace : ¬ Breaks " " := by decide
    simp only [line, breaks_append, hmark, hhost, hdollar, hname, hspace, hblurb, or_self, not_false_eq_true]
  have hmark : p.line = propertyMark ++ (p.host ++ (" $" ++ (p.name ++ (" " ++ p.blurb)))) := by
    simp only [line, String.append_assoc]
  have hapart : Apart methodMark propertyMark := by decide
  rw [hrender]
  constructor
  · exact (Listing.other hline (hmark ▸ hapart.append _)).append hreference.1
  · refine (Listing.line hline ?_).append hreference.2
    exact hmark ▸ startsWith_append _ _

end PropertyDoc

end Autodoc
