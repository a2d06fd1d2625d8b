import Autodoc.Proofs.AutodocParts
import Autodoc.Proofs.Checking
import Autodoc.Proofs.Session

namespace Autodoc

theorem sublist_of_forall₂ {R : α → β → Prop} (hR : Relator.RightUnique R) {as as' : List α} {bs bs' : List β}
    (h : List.Forall₂ R as bs) (h' : List.Forall₂ R as' bs') (hs : as.Sublist as') : bs.Sublist bs' := by
  induction hs generalizing bs bs' with
  | slnil =>
    cases h
    exact bs'.nil_sublist
  | cons a _ ih =>
    cases h' with
    | cons _ htail => exact (ih h htail).cons _
  | cons_cons a _ ih =>
    cases h with
    | cons hhead htail =>
      cases h' with
      | cons hhead' htail' =>
        rw [hR hhead hhead']
        exact (ih htail htail').cons_cons _

theorem length_join_le {texts texts' : List String} (h : texts.Sublist texts') :
    (String.join texts).length ≤ (String.join texts').length := by
  induction h with
  | slnil => exact Nat.le_refl _
  | cons s _ ih =>
    rw [String.join_cons, String.length_append]
    exact Nat.le_add_left_of_le ih
  | cons_cons s _ ih =>
    rw [String.join_cons, String.join_cons, String.length_append, String.length_append]
    exact Nat.add_le_add_left ih _

theorem eq_of_join_eq {texts texts' : List String} (h : texts.Sublist texts') (hn : ∀ s ∈ texts', s ≠ "")
    (hj : String.join texts = String.join texts') : texts = texts' := by
  induction h with
  | slnil => rfl
  | cons s hsub _ =>
    have hle := length_join_le hsub
    rw [hj, String.join_cons, String.length_append] at hle
    have hempty : s.length = 0 := by omega
    exact absurd (String.length_eq_zero_iff.1 hempty) (hn s List.mem_cons_self)
  | cons_cons s _ ih =>
    rw [String.join_cons, String.join_cons, String.append_right_inj] at hj
    rw [ih (fun s hs => hn s (List.mem_cons_of_mem _ hs)) hj]

theorem Signature.render_ne_empty (s : Signature) : s.render ≠ "" := by
  intro h
  unfold render at h
  simp only [String.append_assoc, String.append_eq_empty_iff] at h
  exact absurd h.1 (by decide)

namespace Registry

variable {r : Registry} {c : Config}

theorem revealed_revealed (r : Registry) (names : List String) :
    (r.revealed names).revealed names = r.revealed names := by
  rw [← revealed_append]
  exact revealed_congr fun name => by rw [List.mem_append, or_self]

/-- The text of an autodoc file tells which operations it documents. -/
theorem outcome_nicknames_revealed {names : List String} {f : EmittedFile} (hf : (r.autodoc c).outcome = .ok f)
    (hf' : ((r.revealed names).autodoc c).outcome = .ok f) :
    ((r.revealed names).nicknames c).outcome = (r.nicknames c).outcome := by
  obtain ⟨parts⟩ := nonempty_parts hf
  obtain ⟨parts'⟩ := nonempty_parts hf'
  obtain ⟨more, hmore, hsub⟩ := (r.grows_revealed names).nicknames c _ parts.listed
  have hsame : parts'.names = more := by
    rw [parts'.listed] at hmore
    exact Except.ok.inj hmore
  have hsigned : Relator.RightUnique fun n s => (r.signature c n).outcome = .ok s := by
    intro n s s' hs hs'
    exact Except.ok.inj (hs.symm.trans hs')
  have hshown : Relator.RightUnique fun p d => (propertyDoc c p).outcome = .ok d := by
    intro p d d' hd hd'
    exact Except.ok.inj (hd.symm.trans hd')
  have hdocs : parts.docs = parts'.docs := List.right_unique_forall₂' hshown parts.shown parts'.shown
  have hsignatures : parts.signatures.Sublist parts'.signatures :=
    sublist_of_forall₂ hsigned parts.signed parts'.signed (hsame ▸ hsub)
  have htexts := parts.contents.symm.trans parts'.contents
  simp only [Config.commented, hdocs, String.append_assoc, String.append_right_inj, String.append_left_inj] at htexts
  have hrendered : ∀ text ∈ parts'.signatures.map Signature.render, text ≠ "" := by
    intro text htext
    obtain ⟨s, _, rfl⟩ := List.mem_map.1 htext
    exact s.render_ne_empty
  -- what is listed before is listed after, so equal texts leave nothing over
  have hall := eq_of_join_eq (hsignatures.map Signature.render) hrendered htexts
  have hlength : parts.names.toList.length = more.toList.length := by
    have hmapped := congrArg List.length hall
    rw [List.length_map, List.length_map] at hmapped
    rw [parts.signed.length_eq, hmapped, ← parts'.signed.length_eq, hsame]
  have hnames : more.toList = parts.names.toList := (hsub.eq_of_length hlength).symm
  rw [hmore, parts.listed]
  exact congrArg Except.ok (NicknameSet.toList_inj.1 hnames)

theorem outcome_autodoc_revealed {names : List String}
    (h : ((r.revealed names).nicknames c).outcome = (r.nicknames c).outcome) :
    ((r.revealed names).autodoc c).outcome = (r.autodoc c).outcome := by
  simp only [autodoc, Logged.outcome_bind, h]
  rfl

theorem tail_script_revealed (r : Registry) (c : Config) :
    ((r.revealed c.lazyEnumTypes).script c).tail = (r.script c).tail := by
  have hstate : ((r.revealed c.lazyEnumTypes).forceAll c.lazyEnumTypes).2 = (r.forceAll c.lazyEnumTypes).2 := by
    rw [forceAll_eq, forceAll_eq, revealed_revealed]
  simp only [script, List.tail_cons, outcome_enumNames, state_enumNames, hstate]

theorem script_revealed_eq_iff {f : EmittedFile} (hf : (r.autodoc c).outcome = .ok f) :
    (r.revealed c.lazyEnumTypes).script c = r.script c ↔
      ((r.revealed c.lazyEnumTypes).nicknames c).outcome = (r.nicknames c).outcome := by
  constructor
  · intro h
    have hhead : ((r.revealed c.lazyEnumTypes).autodoc c).outcome = (r.autodoc c).outcome :=
      (List.cons.inj h).1
    exact outcome_nicknames_revealed hf (hhead.trans hf)
  · intro h
    have htail := tail_script_revealed r c
    simp only [script, List.tail_cons] at htail ⊢
    rw [outcome_autodoc_revealed h, htail]

/-- Where no hidden type that is forced lies below a type, the ways down from it were open before. -/
theorem descends_revealed_iff {names : List String} {root type : String}
    (h : ∀ name ∈ names, name ∈ r.hidden → ¬ r.snapshot.Above root name) :
    (r.revealed names).Descends root type ↔ r.Descends root type := by
  refine ⟨fun hd => ?_, fun hd => hd.revealed names⟩
  have hseen {child : String} (hup : r.snapshot.Above root child) (hv : child ∉ (r.revealed names).hidden) :
      child ∉ r.hidden := by
    intro hh
    have hforced := Classical.not_not.1 fun hn => hv (mem_hidden_revealed.2 ⟨hh, hn⟩)
    exact h child hforced.1 hh hup
  induction hd with
  | single hs =>
    obtain ⟨hp, hv⟩ := hs
    exact .single ⟨hp, hseen (.single hp) hv⟩
  | tail hd hs ih =>
    obtain ⟨hp, hv⟩ := hs
    exact ih.tail ⟨hp, hseen (Descends.above hd |>.tail hp) hv⟩

theorem outcome_nicknames_of_not_above {names : List String} (hroot : r.sees c.operationRoot)
    (h : ∀ name ∈ names, name ∈ r.hidden → ¬ r.snapshot.Above c.operationRoot name) :
    ((r.revealed names).nicknames c).outcome = (r.nicknames c).outcome := by
  have hfound : sortedNames (((r.revealed names).below c.operationRoot).filterMap (r.revealed names).liveNickname?) =
      sortedNames ((r.below c.operationRoot).filterMap r.liveNickname?) := by
    apply sortedNames_congr
    intro n
    simp only [List.mem_filterMap, mem_below, descends_revealed_iff h]
    rfl
  rw [outcome_nicknames hroot, outcome_nicknames (sees_revealed hroot names), hfound]

end Registry

namespace Emission

variable {σ : Type} {c : Config} {sink : Sink σ} {s : Emission σ} {r : Registry} {n : Nat}

theorem outcome_autodoc_of_ok (h : (emitAll c sink s).outcome = .ok n) :
    ∃ f, (s.registry.autodoc c).outcome = .ok f ∧ (sink f s.kept).outcome = .ok () := by
  have hscript := (handed_of_ok h).1
  have htakes := takes_of_emitAll hscript.symm h
  cases hh : handed c sink s with
  | nil =>
    rw [hh] at hscript
    cases hscript
  | cons f files =>
    rw [hh] at hscript htakes
    cases htakes with
    | cons ho _ => exact ⟨f, (List.cons.inj hscript).1.symm, ho⟩

theorem registry_of_ok (h : (emitAll c sink s).outcome = .ok n) :
    (emitAll c sink s).state.registry = s.registry.revealed c.lazyEnumTypes := by
  obtain ⟨f, hf, ho⟩ := outcome_autodoc_of_ok h
  have htaken : (sink.offer (s.registry.autodoc c).outcome s.kept).outcome = .ok () := by
    rw [hf]
    exact ho
  rw [registry_emitAll_of_ok htaken, Registry.state_enumNames, Registry.forceAll_eq]

theorem registry_emitAll_revealed (r : Registry) (c : Config) (sink : Sink σ) (k : σ) :
    (emitAll c sink ⟨r.revealed c.lazyEnumTypes, k⟩).state.registry = r.revealed c.lazyEnumTypes := by
  have hact := (Call.emitAll c sink).registry_act ⟨r.revealed c.lazyEnumTypes, k⟩
  simp only [Call.act, Call.forced] at hact
  rw [hact]
  split
  · exact Registry.revealed_nil _
  · exact Registry.revealed_revealed _ _

def after (c : Config) (r : Registry) : Registry := (emitAll c .accepting ⟨r, ()⟩).state.registry

/-- A second run on the registry that a run leaves succeeds and hands over the same files exactly when the same
operations are listed before and after, as they are if no type that is still hidden and is forced lies below the root
of operations. The enum files are the same in any case, and further runs leave the registry as it is. -/
theorem emitAll_again (h : (emitAll c .accepting ⟨r, ()⟩).outcome = .ok n) :
    ((emitAll c .accepting ⟨after c r, ()⟩).outcome = .ok n ∧
        handed c .accepting ⟨after c r, ()⟩ = handed c .accepting ⟨r, ()⟩ ↔
      ((after c r).nicknames c).outcome = (r.nicknames c).outcome) ∧
    ((∀ type ∈ c.lazyEnumTypes, type ∈ r.hidden → ¬ r.snapshot.Above c.operationRoot type) →
      ((after c r).nicknames c).outcome = (r.nicknames c).outcome) ∧
    ((after c r).script c).tail = (r.script c).tail ∧ after c (after c r) = after c r := by
  have hafter : after c r = r.revealed c.lazyEnumTypes := registry_of_ok h
  obtain ⟨f, hf, _⟩ := outcome_autodoc_of_ok h
  have hscript : r.script c = (handed c .accepting ⟨r, ()⟩).map .ok := (handed_of_ok h).1.symm
  rw [hafter, ← Registry.script_revealed_eq_iff hf]
  refine ⟨⟨?_, ?_⟩, ?_, Registry.tail_script_revealed r c, registry_emitAll_revealed r c _ ()⟩
  · rintro ⟨ho, hhanded⟩
    rw [← (handed_of_ok ho).1, hhanded, hscript]
  · intro hsame
    have htakes := Sink.takes_accepting (handed c .accepting ⟨r, ()⟩)
    have hagain := hsame.trans hscript
    rw [(handed_of_ok h).2]
    exact ⟨(emitAll_of_takes hagain htakes).1, handed_of_takes hagain htakes⟩
  · intro hnone
    obtain ⟨parts⟩ := Registry.nonempty_parts hf
    have hroot := Registry.sees_of_nicknames parts.listed
    exact (Registry.script_revealed_eq_iff hf).2 (Registry.outcome_nicknames_of_not_above hroot hnone)

end Emission

theorem Emission.emitAll_again_lateToken :
    (emitAll .bare .accepting ⟨.lateToken, ()⟩).outcome = .ok 2 ∧
    "VipsToken" ∈ Registry.lateToken.hidden ∧ "VipsToken" ∉ (after .bare .lateToken).hidden ∧
    (∀ type ∈ Config.bare.lazyEnumTypes, type ∈ Registry.lateToken.hidden →
      ¬ Registry.lateToken.snapshot.Above Config.bare.operationRoot type) ∧
    (emitAll .bare .accepting ⟨after .bare .lateToken, ()⟩).outcome = .ok 2 ∧
    handed .bare .accepting ⟨after .bare .lateToken, ()⟩ = handed .bare .accepting ⟨.lateToken, ()⟩ := by
  obtain ⟨f, g, hscript, _, _⟩ := Registry.script_lateToken
  have hend := (emitAll_of_takes hscript (Sink.takes_accepting [f, g])).1
  have hafter : after .bare .lateToken = Registry.lateToken.revealed Config.bare.lazyEnumTypes := registry_of_ok hend
  have hnone : ∀ type ∈ Config.bare.lazyEnumTypes, type ∈ Registry.lateToken.hidden →
      ¬ Registry.lateToken.snapshot.Above Config.bare.operationRoot type := by
    intro type _ hhidden habove
    rw [List.mem_singleton.1 hhidden] at habove
    have hdistinct := Registry.lateToken.wellFormed.distinct
    have hparent : Registry.lateToken.snapshot.ParentOf "GEnum" "VipsToken" := Snapshot.parentOf_of_parent? (by decide)
    obtain ⟨parent, hup, hp⟩ := Relation.TransGen.tail'_iff.1 habove
    obtain rfl := hp.unique hdistinct hparent
    rcases Relation.reflTransGen_iff_eq_or_transGen.1 hup with he | hup
    · exact absurd he (by decide)
    · obtain ⟨_, _, htop⟩ := Relation.TransGen.tail'_iff.1 hup
      rw [← Snapshot.parent?_eq_some_iff hdistinct] at htop
      cases htop
  obtain ⟨hagain, hsame, _⟩ := emitAll_again hend
  obtain ⟨ho, hhanded⟩ := hagain.2 (hsame hnone)
  exact ⟨hend, by decide, by rw [hafter]; decide, hnone, ho, hhanded⟩

/-- An operation that registers late. -/
def Registry.lateInvert : Registry where
  snapshot :=
    { types :=
        [⟨"VipsOperation", some "GObject", none, true, false⟩,
          ⟨"VipsInvert", some "VipsOperation", some "invert", false, false⟩]
      operations := .ofList [("invert", ⟨"", false, []⟩)]
      enums := {}
      properties := []
      lazyTypes := ["VipsInvert"] }
  sound := by decide
  hidden := ["VipsInvert"]

/-- The type of an operation is forced with the enums. -/
def Config.forcingInvert : Config := { Config.bare with lazyEnumTypes := ["VipsInvert"] }

theorem Registry.outcome_nicknames_lateInvert :
    (lateInvert.nicknames .forcingInvert).outcome = .ok ⟨#[]⟩ ∧
    ((lateInvert.revealed ["VipsInvert"]).nicknames .forcingInvert).outcome = .ok ⟨#["invert"]⟩ := by
  have hnone : [].filterMap lateInvert.liveNickname? = [] := rfl
  have hlisted : ["VipsInvert"].filterMap (lateInvert.revealed ["VipsInvert"]).liveNickname? = ["invert"] := by decide
  constructor
  · exact outcome_nicknames_of_leaves (by decide) (by decide) (by decide) (by decide) hnone
  · exact outcome_nicknames_of_leaves (by decide) (by decide) (by decide) (by decide) hlisted

theorem Registry.script_lateInvert : ∃ f g, lateInvert.script .forcingInvert = [.ok f] ∧
    (lateInvert.revealed ["VipsInvert"]).script .forcingInvert = [.ok g] ∧ f ≠ g := by
  obtain ⟨hnames, hnames'⟩ := outcome_nicknames_lateInvert
  obtain ⟨f, hf⟩ : ∃ f, (lateInvert.autodoc .forcingInvert).outcome = .ok f :=
    autodoc_of_childless (by decide) (by decide) rfl rfl
  obtain ⟨doc, hdoc⟩ :
      ∃ doc, ((lateInvert.revealed ["VipsInvert"]).documented .forcingInvert "invert").outcome = .ok doc := ⟨_, rfl⟩
  have hdocs : ((lateInvert.revealed ["VipsInvert"]).propertyDocs .forcingInvert).outcome = .ok [] := rfl
  obtain ⟨g, hg⟩ : ∃ g, ((lateInvert.revealed ["VipsInvert"]).autodoc .forcingInvert).outcome = .ok g := by
    simp only [autodoc, Logged.outcome_bind, hnames', NicknameSet.toList, Logged.outcome_each_cons, hdoc, hdocs,
      Except.bind]
    exact ⟨_, rfl⟩
  have henums : (enumNames .forcingInvert lateInvert).outcome = .ok [] := by
    have hstate : (enumNames .forcingInvert lateInvert).state = lateInvert.revealed ["VipsInvert"] := by
      rw [state_enumNames, forceAll_eq]
      rfl
    have hnone : [].filterMap (lateInvert.revealed ["VipsInvert"]).listedEnum? = [] := rfl
    exact outcome_enumNames_of_leaves hstate (by decide) (by decide) (by decide) (by decide) hnone
  have hscript : lateInvert.script .forcingInvert = [.ok f] := by
    simp only [script, hf, henums, List.map_nil]
  refine ⟨f, g, hscript, ?_, ?_⟩
  · have htail := tail_script_revealed lateInvert .forcingInvert
    rw [hscript, List.tail_cons] at htail
    exact congrArg₂ List.cons hg htail
  · rintro rfl
    have hsame := outcome_nicknames_revealed hf hg
    rw [hnames, hnames'] at hsame
    cases hsame

theorem Emission.emitAll_again_lateInvert : Registry.ofSnapshot Registry.lateInvert.snapshot = .ok .lateInvert ∧
    (emitAll .forcingInvert .accepting ⟨.lateInvert, ()⟩).outcome = .ok 1 ∧
    (emitAll .forcingInvert .accepting ⟨after .forcingInvert .lateInvert, ()⟩).outcome = .ok 1 ∧
    handed .forcingInvert .accepting ⟨after .forcingInvert .lateInvert, ()⟩ ≠
      handed .forcingInvert .accepting ⟨.lateInvert, ()⟩ := by
  obtain ⟨f, g, hscript, hscript', hne⟩ := Registry.script_lateInvert
  have htakes := Sink.takes_accepting [f]
  have htakes' := Sink.takes_accepting [g]
  have hend := (emitAll_of_takes hscript htakes).1
  have hafter : after .forcingInvert .lateInvert = Registry.lateInvert.revealed ["VipsInvert"] := registry_of_ok hend
  rw [hafter, handed_of_takes hscript htakes, handed_of_takes hscript' htakes']
  refine ⟨Registry.ofSnapshot_eq_ok_iff.2 ⟨rfl, rfl⟩, hend, (emitAll_of_takes hscript' htakes').1, ?_⟩
  intro hsame
  exact hne (List.cons.inj hsame).1.symm

end Autodoc
