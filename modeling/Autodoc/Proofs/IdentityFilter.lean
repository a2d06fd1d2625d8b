import Autodoc.CommandLine.Run
import Autodoc.Proofs.Rereading

namespace Autodoc

namespace Filter

open Json (Value)

theorem print_ofNumber (n : Json.Number) : (Datum.ofNumber n).print = Json.printNumber n := by
  cases n with
  | int i =>
    rw [Datum.ofNumber]
    split
    next => rfl
    next => exact String.toList_ofList
  | float x => exact String.toList_ofList

mutual

theorem print_ofJson : (v : Value) → (Datum.ofJson v).print = Json.printValue v
  | .null => rfl
  | .bool true => rfl
  | .bool false => rfl
  | .number n => print_ofNumber n
  | .text s => rfl
  | .list [] => rfl
  | .list (v :: vs) => by
    show '[' :: ((Datum.ofJson v).print ++ Datum.printItems (Datum.ofItems vs)) = _
    rw [print_ofJson v, printItems_ofItems vs, Json.printValue]
  | .object [] => rfl
  | .object ((k, v) :: ms) => by
    show '{' :: (Json.printText k ++ ':' :: ((Datum.ofJson v).print ++ Datum.printMembers (Datum.ofMembers ms))) = _
    rw [print_ofJson v, printMembers_ofMembers ms, Json.printValue]

theorem printItems_ofItems : (vs : List Value) → Datum.printItems (Datum.ofItems vs) = Json.printItems vs
  | [] => rfl
  | v :: vs => by
    show ',' :: ((Datum.ofJson v).print ++ Datum.printItems (Datum.ofItems vs)) = _
    rw [print_ofJson v, printItems_ofItems vs, Json.printItems]

theorem printMembers_ofMembers :
    (ms : List (String × Value)) → Datum.printMembers (Datum.ofMembers ms) = Json.printMembers ms
  | [] => rfl
  | (k, v) :: ms => by
    show ',' :: (Json.printText k ++ ':' :: ((Datum.ofJson v).print ++ Datum.printMembers (Datum.ofMembers ms))) = _
    rw [print_ofJson v, printMembers_ofMembers ms, Json.printMembers]

end

theorem shown_ofJson (v : Value) : (Datum.ofJson v).shown = v.toText := by
  rw [Datum.shown, print_ofJson, Value.toText]

theorem eval_identity (depth : Nat) (c : Context) (x : Point) : eval (depth + 1) c .identity x = .value x := rfl

theorem run_identity (d : Datum) : Term.identity.run d = .ok [d] := by
  rw [Term.run, evaluationDepth, eval_identity]
  rfl

/-- The filter puts out once what the text of its input is read as. -/
theorem apply_identity (v : Value) :
    apply "." v = ((Value.ofText v.toText).mapError .output).map fun w => [w] := by
  have hcompile : compile "." = .ok .identity := rfl
  have hdocument : document (.ofJson v) = (Value.ofText v.toText).mapError .output := by
    rw [document, shown_ofJson]
  simp only [apply, hcompile, bind, Except.bind, run_identity, List.mapM_cons, List.mapM_nil, hdocument]
  cases Value.ofText v.toText <;> rfl

/-- A value with whole numbers comes out as it went in exactly if it can be printed without loss. -/
theorem apply_identity_iff {v : Value} (hv : v.Whole) : apply "." v = .ok [v] ↔ v.Exact Json.nestingLimit := by
  rw [apply_identity]
  constructor
  · intro h
    cases hread : Value.ofText v.toText with
    | error e =>
      rw [hread] at h
      cases h
    | ok w =>
      rw [hread] at h
      cases h
      exact Json.exact_of_ofText hread hv
  · intro h
    rw [Json.ofText_toText h]
    rfl

end Filter

namespace CommandLine

open Json (Value HasWholeNumbers hasWholeNumbers_empty)

theorem documents_identity (s : Sources) (path : String) {text : String} (h : HasWholeNumbers text) :
    { s with filter := some "." }.documents path text = { s with filter := none }.documents path text := by
  cases hread : Value.ofText text with
  | error e =>
    simp only [Sources.documents, hread]
    rfl
  | ok v =>
    have hwhole := h v hread
    have happly := (Filter.apply_identity_iff hwhole).2 (Json.exact_of_ofText hread hwhole)
    simp only [Sources.documents, hread, Except.mapError, bind, Except.bind, happly]
    rfl

/-- A value that can be printed without loss comes out of the filter as it went in, and a text with whole numbers makes
the same snapshots, or the same error, with the filter as without one. -/
theorem identity_keeps_documents :
    (∀ v : Value, v.Exact Json.nestingLimit → Filter.apply "." v = .ok [v]) ∧
    ∀ (s : Sources) (path text : String), HasWholeNumbers text →
      { s with filter := some "." }.documents path text = { s with filter := none }.documents path text :=
  ⟨fun _ h => (Filter.apply_identity_iff h.whole).2 h, fun s path _ => documents_identity s path⟩

/-- Operations out of order, characters that are escaped and numbers at the ends of their ranges. -/
def awkward : Value :=
  .object
    [("operations", .object
      [("zoom", .object
        [("description", .text "a \"b\" \\\n\x01 é😀"),
          ("arguments", .list [.object
            [("name", .text "in"), ("flags", .number (.int 0xFFFFFFFF)), ("type", .text "VipsImage")]])]),
        ("abs", .object [])]),
      ("range", .list [.number (.int (-0x8000000000000000)), .number (.int 0xFFFFFFFFFFFFFFFF), .null, .bool true])]

theorem exact_awkward : awkward.Exact Json.nestingLimit := by
  have hargument : (Value.object
      [("name", .text "in"), ("flags", .number (.int 0xFFFFFFFF)), ("type", .text "VipsImage")]).Exact 124 := by
    refine .object (by decide) ?_
    simp only [List.forall_mem_cons]
    exact ⟨.text, .int (by decide) (by decide), .text, List.forall_mem_nil _⟩
  have hzoom : (Value.object
      [("description", .text "a \"b\" \\\n\x01 é😀"), ("arguments", .list [.object
        [("name", .text "in"), ("flags", .number (.int 0xFFFFFFFF)), ("type", .text "VipsImage")]])]).Exact 126 := by
    refine .object (by decide) ?_
    simp only [List.forall_mem_cons]
    exact ⟨.text, .list (List.forall_mem_singleton.2 hargument), List.forall_mem_nil _⟩
  have habs : (Value.object []).Exact 126 := .object List.nodup_nil (List.forall_mem_nil _)
  refine .object (by decide) ?_
  simp only [List.forall_mem_cons]
  refine ⟨.object (by decide) ?_, .list ?_, List.forall_mem_nil _⟩
  · simp only [List.forall_mem_cons]
    exact ⟨hzoom, habs, List.forall_mem_nil _⟩
  · simp only [List.forall_mem_cons]
    exact ⟨.int (by decide) (by decide), .int (by decide) (by decide), .null, .bool, List.forall_mem_nil _⟩

theorem identity_keeps_documents_awkward :
    awkward.Exact Json.nestingLimit ∧ Filter.apply "." awkward = .ok [awkward] ∧ HasWholeNumbers awkward.toText ∧
    { filter := some ".", config := none, inputs := [] : Sources }.documents "awkward.json" awkward.toText =
      .ok [⟨[], .ofList [("zoom", ⟨"a \"b\" \\\n\x01 é😀", false, [⟨"in", 0xFFFFFFFF, "VipsImage", ""⟩]⟩),
        ("abs", ⟨"", false, []⟩)], {}, [], []⟩] := by
  obtain ⟨hkept, hdocuments⟩ := identity_keeps_documents
  have hread : Value.ofText awkward.toText = .ok awkward := Json.ofText_toText exact_awkward
  have hwhole : HasWholeNumbers awkward.toText := by
    intro v hv
    cases hread.symm.trans hv
    exact exact_awkward.whole
  refine ⟨exact_awkward, hkept _ exact_awkward, hwhole, ?_⟩
  refine (hdocuments ⟨none, none, []⟩ "awkward.json" awkward.toText hwhole).trans ?_
  simp only [Sources.documents, hread]
  rfl

/-- All numbers of the documents that a command can read are whole. -/
structure Console.WholeNumbered (c : Console) : Prop where
  files : ∀ path text, c.tree.readText path = .ok text → HasWholeNumbers text
  input : HasWholeNumbers c.input

theorem Console.WholeNumbered.readSource {c : Console} (h : c.WholeNumbered) {path text : String}
    (hread : (readSource path c).outcome = .ok text) :
    HasWholeNumbers text ∧ (CommandLine.readSource path c).state.WholeNumbered := by
  rw [CommandLine.readSource] at hread ⊢
  split at hread
  next hpath =>
    cases hread
    rw [if_pos hpath]
    exact ⟨h.input, h.files, hasWholeNumbers_empty⟩
  next hpath =>
    rw [if_neg hpath]
    refine ⟨?_, h⟩
    cases hfile : c.tree.readText path with
    | error e =>
      rw [hfile] at hread
      cases hread
    | ok t =>
      rw [hfile] at hread
      cases hread
      exact h.files path _ hfile

theorem Run.bind_congr {x y : Run α} {f g : α → Run β} {c : Console} (hx : x c = y c)
    (hf : ∀ a, (y c).outcome = .ok a → f a (y c).state = g a (y c).state) : (x >>= f) c = (y >>= g) c := by
  cases h : (y c).outcome with
  | error e => rw [Action.bind_of_error (hx ▸ h), Action.bind_of_error h, hx]
  | ok a => rw [Action.bind_of_ok (hx ▸ h), Action.bind_of_ok h, hx, hf a h]

theorem read_identity (s : Sources) (paths : List String) {c : Console} (h : c.WholeNumbered) :
    { s with filter := some "." }.read paths c = { s with filter := none }.read paths c := by
  induction paths generalizing c with
  | nil => rfl
  | cons path paths ih =>
    refine Run.bind_congr rfl fun text htext => ?_
    obtain ⟨hwhole, hstate⟩ := h.readSource htext
    rw [documents_identity s path hwhole]
    refine Run.bind_congr rfl fun docs hdocs => ?_
    exact Run.bind_congr (ih hstate) fun _ _ => rfl

theorem registry_identity (s : Sources) {c : Console} (h : c.WholeNumbered) :
    { s with filter := some "." }.registry c = { s with filter := none }.registry c := by
  refine Run.bind_congr rfl fun paths _ => ?_
  exact Run.bind_congr (read_identity s paths h) fun _ _ => rfl

def Command.filteredBy (filter : Option String) : Command → Command
  | .generate s dir checking strict => .generate { s with filter } dir checking strict
  | .introspect s nickname signature => .introspect { s with filter } nickname signature
  | .list s kind => .list { s with filter } kind

/-- With the filter, every command does what it does without one: it prints and writes the same and fails alike. -/
theorem run_filteredBy_identity (command : Command) {c : Console} (h : c.WholeNumbered) :
    (command.filteredBy (some ".")).run c = (command.filteredBy none).run c := by
  cases command with
  | generate s dir checking strict => exact Run.bind_congr (registry_identity s h) fun _ _ => rfl
  | introspect s nickname signature => exact Run.bind_congr (registry_identity s h) fun _ _ => rfl
  | list s kind => exact Run.bind_congr (registry_identity s h) fun _ _ => rfl

end CommandLine

end Autodoc
