import Autodoc.Proofs.DocComment

namespace Autodoc

theorem Logged.forall₂_of_each {f : α → Logged ε β} {as : List α} {bs : List β} (h : (each f as).outcome = .ok bs) :
    List.Forall₂ (fun a b => (f a).outcome = .ok b) as bs :=
  each_induction .nil (fun _ _ _ _ hhead htail => .cons hhead htail) h

theorem exists_of_forall₂ {R : α → β → Prop} {as : List α} {bs : List β} (h : List.Forall₂ R as bs) {b : β}
    (hb : b ∈ bs) : ∃ a ∈ as, R a b := by
  induction h with
  | nil => cases hb
  | cons hhead _ ih =>
    rcases List.mem_cons.1 hb with rfl | hb
    · exact ⟨_, List.mem_cons_self, hhead⟩
    · obtain ⟨a, ha, hR⟩ := ih hb
      exact ⟨a, List.mem_cons_of_mem _ ha, hR⟩

theorem map_eq_of_forall₂ {R : α → β → Prop} {as : List α} {bs : List β} (h : List.Forall₂ R as bs) {g : β → α}
    (hg : ∀ a ∈ as, ∀ b, R a b → g b = a) : bs.map g = as := by
  induction h with
  | nil => rfl
  | cons hhead _ ih =>
    rw [List.map_cons, hg _ List.mem_cons_self _ hhead, ih fun a ha => hg a (List.mem_cons_of_mem _ ha)]

namespace Roles

variable {args : List Argument} {a : Argument}

theorem mem_inputs (h : a ∈ (ofArguments args).inputs) : a ∈ args :=
  List.mem_of_mem_filter (List.mem_of_mem_eraseP (List.mem_of_mem_filter h))

theorem mem_outputs (h : a ∈ (ofArguments args).outputs) : a ∈ args :=
  List.mem_of_mem_filter (List.mem_of_mem_eraseP (List.mem_of_mem_filter h))

theorem mem_enumArguments (h : a ∈ (ofArguments args).enumArguments) : a ∈ args := by
  rcases List.mem_append.1 (List.mem_of_mem_filter h) with h | h
  · exact mem_outputs h
  · exact mem_inputs h

end Roles

theorem Config.hostType_of_hostTypeIn {c : Config} {context field host : String} {d : TypeDescriptor} {u : TypeUse}
    (h : (c.hostTypeIn context field d u).outcome = .ok host) : (c.hostType d u).outcome = .ok host := by
  rw [hostTypeIn, Logged.outcome_mapError] at h
  cases ho : (c.hostType d u).outcome with
  | error e =>
    rw [ho] at h
    cases h
  | ok found =>
    rw [ho] at h
    cases h
    rfl

theorem Signature.of_operation {c : Config} {op : Operation} {s : Signature}
    (h : (ofOperation c op).outcome = .ok s) : s.name = op.nickname ∧
      (returnType c op.nickname (Roles.ofArguments op.arguments).returnShape).outcome = .ok s.returns ∧
      (Logged.each (enumRef c op.nickname) (Roles.ofArguments op.arguments).enumArguments).outcome =
        .ok s.enumRefs := by
  obtain ⟨returns, hreturns, h⟩ := Logged.outcome_bind_eq_ok_iff.1 h
  obtain ⟨params, _, h⟩ := Logged.outcome_bind_eq_ok_iff.1 h
  obtain ⟨enumRefs, hrefs, h⟩ := Logged.outcome_bind_eq_ok_iff.1 h
  split at h
  · obtain ⟨outputs, _, h⟩ := Logged.outcome_bind_eq_ok_iff.1 h
    cases h
    exact ⟨rfl, hreturns, hrefs⟩
  · cases h
    exact ⟨rfl, hreturns, hrefs⟩

namespace Registry

variable {r : Registry} {c : Config}

theorem exists_signature {n doc : String} (h : (r.documented c n).outcome = .ok doc) :
    ∃ s, (r.signature c n).outcome = .ok s ∧ doc = s.render := by
  obtain ⟨_, _, h⟩ := Logged.outcome_bind_eq_ok_iff.1 h
  obtain ⟨s, hs, hdoc⟩ := Logged.outcome_bind_eq_ok_iff.1 h
  cases hdoc
  exact ⟨s, hs, rfl⟩

theorem exists_operation {n : String} {s : Signature} (h : (r.signature c n).outcome = .ok s) :
    ∃ op, r.operation n = .ok op ∧ (Signature.ofOperation c op).outcome = .ok s := by
  obtain ⟨op, hop, hs⟩ := Logged.outcome_bind_eq_ok_iff.1 h
  refine ⟨op, ?_, hs⟩
  cases ho : r.operation n with
  | error e => simp [operationOf, ho, Except.mapError] at hop
  | ok op' => simpa [operationOf, ho, Except.mapError] using hop

theorem name_of_signature {n : String} {s : Signature} (h : (r.signature c n).outcome = .ok s) : s.name = n := by
  obtain ⟨op, hop, hs⟩ := exists_operation h
  rw [(Signature.of_operation hs).1, nickname_of_operation hop]

/-- What the autodoc file is put together from. -/
structure Parts (r : Registry) (c : Config) (f : EmittedFile) where
  names : NicknameSet
  signatures : List Signature
  docs : List PropertyDoc
  listed : (r.nicknames c).outcome = .ok names
  signed : List.Forall₂ (fun n s => (r.signature c n).outcome = .ok s) names.toList signatures
  shown : List.Forall₂ (fun p d => (propertyDoc c p).outcome = .ok d)
    (r.snapshot.properties.map r.describedProperty) docs
  contents : f.contents = c.commented (" * Autodocs for the Image class.\n" ++
    (c.header.classTags c.hostNamespace ++ (" *\n" ++ String.join (signatures.map Signature.render) ++ " *\n"
      ++ String.join (docs.map PropertyDoc.render))))

theorem exists_signatures {names docs : List String} (h : (Logged.each (r.documented c) names).outcome = .ok docs) :
    ∃ signatures, List.Forall₂ (fun n s => (r.signature c n).outcome = .ok s) names signatures ∧
      docs = signatures.map Signature.render := by
  refine Logged.each_induction (P := fun names docs => ∃ signatures,
    List.Forall₂ (fun n s => (r.signature c n).outcome = .ok s) names signatures ∧
      docs = signatures.map Signature.render) ⟨[], .nil, rfl⟩ ?_ h
  rintro n doc names docs hdoc ⟨signatures, htail, rfl⟩
  obtain ⟨s, hs, rfl⟩ := exists_signature hdoc
  exact ⟨s :: signatures, .cons hs htail, rfl⟩

theorem nonempty_parts {f : EmittedFile} (h : (r.autodoc c).outcome = .ok f) : Nonempty (r.Parts c f) := by
  obtain ⟨names, hnames, h⟩ := Logged.outcome_bind_eq_ok_iff.1 h
  obtain ⟨methods, hmethods, h⟩ := Logged.outcome_bind_eq_ok_iff.1 h
  obtain ⟨docs, hdocs, h⟩ := Logged.outcome_bind_eq_ok_iff.1 h
  cases h
  obtain ⟨signatures, hsigned, rfl⟩ := exists_signatures hmethods
  rw [propertyDocs, Logged.outcome_bind, Logged.outcome_ofExcept, properties_eq_ok] at hdocs
  exact ⟨⟨names, signatures, docs, hnames, hsigned, Logged.forall₂_of_each hdocs, classFile_eq_commented c _⟩⟩

end Registry

end Autodoc
