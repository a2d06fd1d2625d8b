import Autodoc.Emission

namespace Autodoc

namespace ClassBody

inductive Token where
  | word (text : List Char)
  | literal (text : List Char)
  | mark (c : Char)
  deriving DecidableEq

/-- What has been read of the token at hand: letters of a word, or the text of a literal, perhaps up to a backslash. -/
inductive Pending where
  | nothing
  | word (text : List Char)
  | literal (text : List Char)
  | escape (text : List Char)

def begin (c : Char) : List Token × Pending :=
  if Json.isBlank c then ([], .nothing)
  else if c = '\'' then ([], .literal [])
  else if isWordChar c then ([], .word [c])
  else ([.mark c], .nothing)

/-- In a literal a backslash escapes itself and a quote, and stands for itself before anything else; any other
character stands for itself, and the first quote that is not escaped ends the literal. -/
def step : Pending → Char → List Token × Pending
  | .nothing, c => begin c
  | .word text, c =>
    if isWordChar c then ([], .word (text ++ [c])) else (.word text :: (begin c).1, (begin c).2)
  | .literal text, c =>
    if c = '\'' then ([.literal text], .nothing)
    else if c = '\\' then ([], .escape text)
    else ([], .literal (text ++ [c]))
  | .escape text, c => ([], .literal (text ++ if c = '\\' ∨ c = '\'' then [c] else ['\\', c]))

def tokens : Pending → List Char → Option (List Token)
  | .nothing, [] => some []
  | .word text, [] => some [.word text]
  | _, [] => none
  | p, c :: cs => (tokens (step p c).2 cs).map ((step p c).1 ++ ·)

def constants : List Token → Option (List EnumConstant)
  | [.mark '\x7d'] => some []
  | .word keyword :: .word name :: .mark '=' :: .literal value :: .mark ';' :: ts =>
    if keyword = "const".toList ∧ isIdentifierText name then
      (constants ts).map (⟨String.ofList name, String.ofList value⟩ :: ·)
    else none
  | _ => none

def read (body : String) : Option (List EnumConstant) := (tokens .nothing body.toList).bind constants

variable {c : Char} {rest : List Char}

theorem tokens_cons (p : Pending) (c : Char) (cs : List Char) :
    tokens p (c :: cs) = (tokens (step p c).2 cs).map ((step p c).1 ++ ·) := by
  cases p <;> rfl

theorem isBlank_of_isWordChar (h : isWordChar c) : Json.isBlank c = false := by
  rw [← Bool.not_eq_true]
  intro hb
  simp only [Json.isBlank, Bool.or_eq_true, decide_eq_true_eq] at hb
  rcases hb with ((rfl | rfl) | rfl) | rfl <;> exact absurd h (by decide)

theorem begin_of_isWordChar (h : isWordChar c) : begin c = ([], .word [c]) := by
  have hquote : c ≠ '\'' := by
    rintro rfl
    exact absurd h (by decide)
  simp [begin, isBlank_of_isWordChar h, hquote, h]

theorem tokens_blank (h : Json.isBlank c) : tokens .nothing (c :: rest) = tokens .nothing rest := by
  simp [tokens_cons, step, begin, h]

theorem tokens_mark (h : Json.isBlank c = false ∧ c ≠ '\'' ∧ isWordChar c = false) :
    tokens .nothing (c :: rest) = (tokens .nothing rest).map (.mark c :: ·) := by
  simp [tokens_cons, step, begin, h]

theorem tokens_pending_word {word : List Char} (hword : ∀ c ∈ word, isWordChar c)
    (hrest : ∀ c ∈ rest.head?, isWordChar c = false) (text : List Char) :
    tokens (.word text) (word ++ rest) = (tokens .nothing rest).map (.word (text ++ word) :: ·) := by
  induction word generalizing text with
  | nil =>
    cases rest with
    | nil => simp [tokens]
    | cons c rest =>
      have hc : isWordChar c = false := hrest c rfl
      simp [tokens_cons, step, hc, Function.comp_def]
  | cons c word ih =>
    obtain ⟨hc, hword⟩ := List.forall_mem_cons.1 hword
    rw [List.cons_append, tokens_cons, step, if_pos hc, ih hword]
    simp [Function.comp_def]

theorem tokens_word {word : List Char} (hne : word ≠ []) (hword : ∀ c ∈ word, isWordChar c)
    (hrest : ∀ c ∈ rest.head?, isWordChar c = false) :
    tokens .nothing (word ++ rest) = (tokens .nothing rest).map (.word word :: ·) := by
  obtain ⟨c, word, rfl⟩ := List.exists_cons_of_ne_nil hne
  obtain ⟨hc, hword⟩ := List.forall_mem_cons.1 hword
  rw [List.cons_append, tokens_cons, step, begin_of_isWordChar hc, tokens_pending_word hword hrest]
  simp [Function.comp_def]

theorem tokens_pending_literal (value text : List Char) :
    tokens (.literal text) (escapeLiteral value ++ '\'' :: rest) =
      (tokens .nothing rest).map (.literal (text ++ value) :: ·) := by
  induction value generalizing text with
  | nil => simp [escapeLiteral, tokens_cons, step]
  | cons c value ih =>
    rw [escapeLiteral, List.flatMap_cons, ← escapeLiteral]
    split
    next hc =>
      have hbackslash : step (.literal text) '\\' = ([], .escape text) := rfl
      have hescaped : step (.escape text) c = ([], .literal (text ++ [c])) := by rw [step, if_pos hc]
      show tokens (.literal text) ('\\' :: c :: (escapeLiteral value ++ '\'' :: rest)) = _
      rw [tokens_cons, hbackslash, tokens_cons, hescaped, ih]
      simp [Function.comp_def]
    next hc =>
      obtain ⟨hbackslash, hquote⟩ := not_or.1 hc
      show tokens (.literal text) (c :: (escapeLiteral value ++ '\'' :: rest)) = _
      rw [tokens_cons, step, if_neg hquote, if_neg hbackslash, ih]
      simp [Function.comp_def]

theorem tokens_literal (value : List Char) : tokens .nothing ('\'' :: (escapeLiteral value ++ '\'' :: rest)) =
    (tokens .nothing rest).map (.literal value :: ·) := by
  have hquote : step .nothing '\'' = ([], .literal []) := rfl
  rw [tokens_cons, hquote, tokens_pending_literal]
  simp [Function.comp_def]

theorem word_of_isIdentifier {name : String} (h : isIdentifier name) :
    name.toList ≠ [] ∧ ∀ c ∈ name.toList, isWordChar c := by
  rw [isIdentifier] at h
  cases hname : name.toList with
  | nil =>
    rw [hname] at h
    cases h
  | cons c cs =>
    rw [hname, isIdentifierText, Bool.and_eq_true, List.all_eq_true] at h
    refine ⟨List.cons_ne_nil c cs, List.forall_mem_cons.2 ⟨?_, h.2⟩⟩
    rw [isWordChar, h.1, Bool.true_or]

def itemTokens (k : EnumConstant) : List Token :=
  [.word "const".toList, .word k.name.toList, .mark '=', .literal k.value.toList, .mark ';']

theorem tokens_item {k : EnumConstant} (h : isIdentifier k.name) :
    tokens .nothing (k.render.toList ++ rest) = (tokens .nothing rest).map (itemTokens k ++ ·) := by
  have htext : k.render.toList ++ rest = ' ' :: ' ' :: ' ' :: ' ' :: ("const".toList ++ ' ' :: (k.name.toList ++
      ' ' :: '=' :: ' ' :: '\'' :: (escapeLiteral k.value.toList ++ '\'' :: ';' :: '\n' :: rest))) := by
    simp [EnumConstant.render]
  have hblank : Json.isBlank ' ' := by decide
  have hspace : ∀ cs, ∀ c ∈ (' ' :: cs).head?, isWordChar c = false := by
    rintro cs _ ⟨⟩
    decide
  have hconst : ∀ c ∈ "const".toList, isWordChar c = true := List.all_eq_true.1 (by decide)
  obtain ⟨hne, hname⟩ := word_of_isIdentifier h
  rw [htext, tokens_blank hblank, tokens_blank hblank, tokens_blank hblank, tokens_blank hblank,
    tokens_word (by decide) hconst (hspace _), tokens_blank hblank, tokens_word hne hname (hspace _),
    tokens_blank hblank, tokens_mark (by decide), tokens_blank hblank, tokens_literal, tokens_mark (by decide),
    tokens_blank (by decide)]
  simp [itemTokens, Function.comp_def]

theorem tokens_items {ks : List EnumConstant} (h : ∀ k ∈ ks, isIdentifier k.name) :
    tokens .nothing ((String.join (ks.map EnumConstant.render)).toList ++ rest) =
      (tokens .nothing rest).map (ks.flatMap itemTokens ++ ·) := by
  induction ks with
  | nil => simp
  | cons k ks ih =>
    obtain ⟨hk, hks⟩ := List.forall_mem_cons.1 h
    rw [List.map_cons, String.join_cons, String.toList_append, List.append_assoc, tokens_item hk, ih hks]
    simp [Function.comp_def]

theorem constants_items {ks : List EnumConstant} (h : ∀ k ∈ ks, isIdentifier k.name) :
    constants (ks.flatMap itemTokens ++ [.mark '\x7d']) = some ks := by
  induction ks with
  | nil => rfl
  | cons k ks ih =>
    obtain ⟨hk, hks⟩ := List.forall_mem_cons.1 h
    have hname : isIdentifierText k.name.toList := hk
    simp only [List.flatMap_cons, itemTokens, List.cons_append, List.nil_append, constants, hname, and_self, if_true,
      ih hks, Option.map_some, String.ofList_toList]

/-- The body that is rendered of constants reads back as the constants. -/
theorem read_render {ks : List EnumConstant} (h : ∀ k ∈ ks, isIdentifier k.name) :
    read (String.join (ks.map EnumConstant.render) ++ "\x7d\n") = some ks := by
  have hend : tokens .nothing "\x7d\n".toList = some [.mark '\x7d'] := by decide
  rw [read, String.toList_append, tokens_items h, hend, Option.map_some, Option.bind_some, constants_items h]

end ClassBody

def guarded (x : Char) (cs : List Char) : List Char := cs.flatMap fun c => if c = x then ['\\', c] else [c]

/-- A literal may be escaped in two passes, if the backslashes come first. -/
theorem escapeLiteral_eq_guarded (cs : List Char) : escapeLiteral cs = guarded '\'' (guarded '\\' cs) := by
  rw [escapeLiteral, guarded, guarded, List.flatMap_assoc]
  congr 1
  funext c
  by_cases hc : c = '\\'
  · subst hc
    rfl
  · rw [if_neg hc, List.flatMap_cons, List.flatMap_nil, List.append_nil]
    simp [hc]

def Config.classHead (c : Config) (title doc name : String) : String :=
  c.header.preamble c.hostNamespace
    ++ "\nnamespace " ++ c.hostNamespace ++ ";\n\n/**\n"
    ++ " * " ++ title ++ "\n" ++ c.header.classTags c.hostNamespace
    ++ doc ++ " */\n"
    ++ "abstract class " ++ name ++ "\n\x7b\n"

theorem Config.classFile_eq_head (c : Config) (title doc name body : String) :
    c.classFile title doc name body = c.classHead title doc name ++ (body ++ "\x7d\n") := by
  simp only [classFile, classHead, String.append_assoc]

namespace EnumDoc

def head (c : Config) (hostName : String) : String := c.classHead ("The " ++ hostName ++ " enum.") "" hostName

theorem render_eq_head (d : EnumDoc) (c : Config) :
    d.render c = head c d.hostName ++ (String.join (d.constants.map EnumConstant.render) ++ "\x7d\n") :=
  c.classFile_eq_head _ _ _ _

/-- After the header the file of an enum reads back as its constants, so of enums of one name that differ in their
constants the files differ. -/
theorem render_reads_back {d : EnumDoc} (c : Config) (h : ∀ k ∈ d.constants, isIdentifier k.name) :
    (∃ body, d.render c = head c d.hostName ++ body ∧ ClassBody.read body = some d.constants) ∧
    ∀ d' : EnumDoc, (∀ k ∈ d'.constants, isIdentifier k.name) → d'.hostName = d.hostName →
      d'.constants ≠ d.constants → d'.render c ≠ d.render c := by
  refine ⟨⟨_, d.render_eq_head c, ClassBody.read_render h⟩, ?_⟩
  intro d' h' hname hne heq
  rw [render_eq_head, render_eq_head, hname, String.append_right_inj] at heq
  have hread := ClassBody.read_render h'
  rw [heq, ClassBody.read_render h] at hread
  exact hne (Option.some.inj hread).symm

/-- Values of quotes and backslashes, at the end too, and one that goes on in another line. -/
def odd : EnumDoc := ⟨"Odd", [⟨"IT_S", "it's"⟩, ⟨"PATH", "\\a\\\\"⟩, ⟨"BOTH", "\\'\n';"⟩]⟩

theorem render_reads_back_odd : (∀ k ∈ odd.constants, isIdentifier k.name) ∧
    (∃ body, odd.render .default = head .default "Odd" ++ body ∧ ClassBody.read body = some odd.constants) ∧
    EnumDoc.render ⟨"Odd", [⟨"IT_S", "its"⟩]⟩ .default ≠ odd.render .default := by
  have hnames : ∀ k ∈ odd.constants, isIdentifier k.name := by decide
  obtain ⟨hread, hdiffers⟩ := render_reads_back .default hnames
  exact ⟨hnames, hread, hdiffers _ (by decide) rfl (by decide)⟩

end EnumDoc

end Autodoc
