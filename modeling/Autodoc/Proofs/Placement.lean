import Mathlib.Data.List.FinRange
import Autodoc.Roles

namespace Autodoc

/-- The positions of the arguments in each place. -/
structure Placement (args : List Argument) where
  receiver : Option (Fin args.length)
  inputs : List (Fin args.length)
  outputs : List (Fin args.length)
  optionalInputs : List (Fin args.length)
  optionalOutputs : List (Fin args.length)

namespace Argument

def CanReceive (a : Argument) : Prop :=
  a.flags.deprecated = false ∧ a.flags.required = true ∧ a.flags.input = true ∧ a.type.kind = .image

theorem canReceive_iff {a : Argument} : a.CanReceive ↔ a.isLive = true ∧ a.isReceiver = true := by
  simp only [CanReceive, isLive, isReceiver, ArgumentFlags.isRequiredInput, TypeDescriptor.isImage,
    Bool.not_eq_true', Bool.and_eq_true, decide_eq_true_eq, and_assoc]

theorem isOutput_iff {a : Argument} : a.isOutput = true ↔ a.flags.required = true ∧
    (a.flags.output = true ∨ a.flags.input = true ∧ a.flags.modify = true) := by
  simp only [isOutput, ArgumentFlags.isRequiredOutput, ArgumentFlags.isRequiredInput, Bool.or_eq_true,
    Bool.and_eq_true, and_assoc, and_or_left]

theorem isInput_iff {a : Argument} : a.isInput = true ↔
    a.isOutput = false ∧ a.flags.required = true ∧ a.flags.input = true := by
  simp only [isInput, ArgumentFlags.isRequiredInput, Bool.and_eq_true, Bool.not_eq_true']

end Argument

namespace Placement

variable {args : List Argument} {p : Placement args}

def roles (p : Placement args) : Roles where
  receiver := p.receiver.map args.get
  inputs := p.inputs.map args.get
  outputs := p.outputs.map args.get
  optionalInputs := p.optionalInputs.map args.get
  optionalOutputs := p.optionalOutputs.map args.get

/-- The steps that find the roles, taken on positions. -/
def ofArguments (args : List Argument) : Placement args :=
  let all := List.finRange args.length
  let live := all.filter fun i => (args.get i).isLive
  let others := live.eraseP fun i => (args.get i).isReceiver
  { receiver := live.find? fun i => (args.get i).isReceiver
    inputs := others.filter fun i => (args.get i).isInput
    outputs := others.filter fun i => (args.get i).isOutput
    optionalInputs := all.filter fun i => (args.get i).isOptionalInput
    optionalOutputs := all.filter fun i => (args.get i).isOptionalOutput }

theorem roles_ofArguments (args : List Argument) : (ofArguments args).roles = Roles.ofArguments args := by
  have hargs : (List.finRange args.length).map args.get = args := List.map_get_finRange args
  conv_rhs => rw [← hargs]
  simp only [Roles.ofArguments, List.filter_map, List.eraseP_map, List.find?_map]
  rfl

/-- What the flags call for, position by position. -/
structure FollowsFlags (p : Placement args) : Prop where
  ordered : ∀ l ∈ [p.inputs, p.outputs, p.optionalInputs, p.optionalOutputs], l.Pairwise (· < ·)
  receiver : ∀ i, p.receiver = some i ↔ (args.get i).CanReceive ∧ ∀ j < i, ¬ (args.get j).CanReceive
  outputs : ∀ i, i ∈ p.outputs ↔ (args.get i).flags.deprecated = false ∧ p.receiver ≠ some i ∧
    (args.get i).flags.required = true ∧ ((args.get i).flags.output = true ∨
      (args.get i).flags.input = true ∧ (args.get i).flags.modify = true)
  inputs : ∀ i, i ∈ p.inputs ↔ (args.get i).flags.deprecated = false ∧ p.receiver ≠ some i ∧
    i ∉ p.outputs ∧ (args.get i).flags.required = true ∧ (args.get i).flags.input = true
  optionalOutputs : ∀ i, i ∈ p.optionalOutputs ↔
    (args.get i).flags.output = true ∧ (args.get i).flags.required = false
  optionalInputs : ∀ i, i ∈ p.optionalInputs ↔
    (args.get i).flags.input = true ∧ (args.get i).flags.required = false

/-- No position is in two places, but that an optional argument may be both an input and an output. -/
structure Separates (p : Placement args) : Prop where
  inputs_outputs : ∀ i ∈ p.inputs, i ∉ p.outputs
  receiver_alone : ∀ i, p.receiver = some i →
    i ∉ p.inputs ∧ i ∉ p.outputs ∧ i ∉ p.optionalInputs ∧ i ∉ p.optionalOutputs
  required_optional : ∀ i, i ∈ p.inputs ∨ i ∈ p.outputs → i ∉ p.optionalInputs ∧ i ∉ p.optionalOutputs
  placed : ∀ i, (args.get i).flags.deprecated = false → (args.get i).flags.required = true →
    (args.get i).flags.input = true ∨ (args.get i).flags.output = true →
    p.receiver = some i ∨ i ∈ p.inputs ∨ i ∈ p.outputs

theorem FollowsFlags.required_of_mem (h : p.FollowsFlags) {i : Fin args.length}
    (hi : p.receiver = some i ∨ i ∈ p.inputs ∨ i ∈ p.outputs) : (args.get i).flags.required = true := by
  rcases hi with hi | hi | hi
  · exact ((h.receiver i).1 hi).1.2.1
  · exact ((h.inputs i).1 hi).2.2.2.1
  · exact ((h.outputs i).1 hi).2.2.1

theorem FollowsFlags.not_optional (h : p.FollowsFlags) {i : Fin args.length}
    (hi : p.receiver = some i ∨ i ∈ p.inputs ∨ i ∈ p.outputs) :
    i ∉ p.optionalInputs ∧ i ∉ p.optionalOutputs := by
  have hr := h.required_of_mem hi
  rw [h.optionalInputs, h.optionalOutputs, hr]
  exact ⟨fun hn => Bool.noConfusion hn.2, fun hn => Bool.noConfusion hn.2⟩

theorem FollowsFlags.separates (h : p.FollowsFlags) : p.Separates where
  inputs_outputs i hi := ((h.inputs i).1 hi).2.2.1
  receiver_alone i hi := by
    refine ⟨fun hn => ?_, fun hn => ?_, h.not_optional (.inl hi)⟩
    · exact ((h.inputs i).1 hn).2.1 hi
    · exact ((h.outputs i).1 hn).2.1 hi
  required_optional i hi := h.not_optional (.inr hi)
  placed i hl hr hio := by
    by_cases hrec : p.receiver = some i
    · exact .inl hrec
    by_cases hout : i ∈ p.outputs
    · exact .inr (.inr hout)
    · rcases hio with hin | hin
      · exact .inr (.inl ((h.inputs i).2 ⟨hl, hrec, hout, hr, hin⟩))
      · exact absurd ((h.outputs i).2 ⟨hl, hrec, hr, .inl hin⟩) hout

section Increasing

variable {n : Nat} {l : List (Fin n)} {q : Fin n → Bool} {i : Fin n}

theorem find?_eq_some_iff_least (h : l.Pairwise (· < ·)) :
    l.find? q = some i ↔ (i ∈ l ∧ q i = true) ∧ ∀ j < i, ¬ (j ∈ l ∧ q j = true) := by
  induction l with
  | nil => simp
  | cons k l ih =>
    obtain ⟨hk, hl⟩ := List.pairwise_cons.1 h
    by_cases hq : q k = true
    · rw [List.find?_cons_of_pos hq]
      constructor
      · rintro ⟨rfl⟩
        refine ⟨⟨List.mem_cons_self, hq⟩, ?_⟩
        rintro j hj ⟨hm, _⟩
        rcases List.mem_cons.1 hm with rfl | hm
        · exact absurd hj (lt_irrefl _)
        · exact absurd (hk j hm) (lt_asymm hj)
      · rintro ⟨⟨hm, _⟩, hleast⟩
        rcases List.mem_cons.1 hm with rfl | hm
        · rfl
        · exact absurd ⟨List.mem_cons_self, hq⟩ (hleast k (hk i hm))
    · rw [List.find?_cons_of_neg hq, ih hl]
      have hcons (j : Fin n) : j ∈ k :: l ∧ q j = true ↔ j ∈ l ∧ q j = true := by
        rw [List.mem_cons]
        constructor
        · rintro ⟨rfl | hm, hj⟩
          · exact absurd hj hq
          · exact ⟨hm, hj⟩
        · exact fun hj => ⟨.inr hj.1, hj.2⟩
      simp only [hcons]

theorem mem_eraseP_iff_find? (h : l.Pairwise (· < ·)) :
    i ∈ l.eraseP q ↔ i ∈ l ∧ l.find? q ≠ some i := by
  induction l with
  | nil => simp
  | cons k l ih =>
    obtain ⟨hk, hl⟩ := List.pairwise_cons.1 h
    by_cases hq : q k = true
    · rw [List.eraseP_cons_of_pos hq, List.find?_cons_of_pos hq, List.mem_cons]
      constructor
      · intro hm
        exact ⟨.inr hm, fun he => (hk i hm).ne (Option.some.inj he)⟩
      · rintro ⟨rfl | hm, hne⟩
        · exact absurd rfl hne
        · exact hm
    · rw [List.eraseP_cons_of_neg hq, List.find?_cons_of_neg hq, List.mem_cons, List.mem_cons, ih hl]
      constructor
      · rintro (rfl | ⟨hm, hne⟩)
        · exact ⟨.inl rfl, fun he => hq (List.find?_some he)⟩
        · exact ⟨.inr hm, hne⟩
      · rintro ⟨rfl | hm, hne⟩
        · exact .inl rfl
        · exact .inr ⟨hm, hne⟩

end Increasing

theorem pairwise_live (args : List Argument) :
    ((List.finRange args.length).filter fun i => (args.get i).isLive).Pairwise (· < ·) :=
  (List.pairwise_lt_finRange _).filter _

theorem receiver_ofArguments (i : Fin args.length) : (ofArguments args).receiver = some i ↔
    (args.get i).CanReceive ∧ ∀ j < i, ¬ (args.get j).CanReceive := by
  simp only [ofArguments, find?_eq_some_iff_least (pairwise_live args), List.mem_filter,
    List.mem_finRange, true_and, Argument.canReceive_iff]

theorem mem_others_iff (i : Fin args.length) :
    i ∈ ((List.finRange args.length).filter fun i => (args.get i).isLive).eraseP
        (fun i => (args.get i).isReceiver) ↔
      (args.get i).flags.deprecated = false ∧ (ofArguments args).receiver ≠ some i := by
  rw [mem_eraseP_iff_find? (pairwise_live args), List.mem_filter]
  simp only [List.mem_finRange, true_and, Argument.isLive, Bool.not_eq_true', ofArguments]

theorem outputs_ofArguments (i : Fin args.length) : i ∈ (ofArguments args).outputs ↔
    (args.get i).flags.deprecated = false ∧ (ofArguments args).receiver ≠ some i ∧
      (args.get i).isOutput = true :=
  List.mem_filter.trans ((and_congr_left' (mem_others_iff i)).trans and_assoc)

theorem inputs_ofArguments (i : Fin args.length) : i ∈ (ofArguments args).inputs ↔
    (args.get i).flags.deprecated = false ∧ (ofArguments args).receiver ≠ some i ∧
      (args.get i).isInput = true :=
  List.mem_filter.trans ((and_congr_left' (mem_others_iff i)).trans and_assoc)

theorem ordered_ofArguments (args : List Argument) :
    ∀ l ∈ [(ofArguments args).inputs, (ofArguments args).outputs, (ofArguments args).optionalInputs,
      (ofArguments args).optionalOutputs], l.Pairwise (· < ·) := by
  have hall : (List.finRange args.length).Pairwise (· < ·) := List.pairwise_lt_finRange _
  have hothers := (pairwise_live args).sublist (List.eraseP_sublist (p := fun i => (args.get i).isReceiver))
  simp only [List.forall_mem_cons, List.not_mem_nil, false_imp_iff, implies_true, and_true]
  exact ⟨hothers.filter _, hothers.filter _, hall.filter _, hall.filter _⟩

theorem followsFlags_ofArguments (args : List Argument) : (ofArguments args).FollowsFlags where
  ordered := ordered_ofArguments args
  receiver := receiver_ofArguments
  outputs i := by rw [outputs_ofArguments, Argument.isOutput_iff]
  inputs i := by
    rw [inputs_ofArguments, outputs_ofArguments, Argument.isInput_iff]
    constructor
    · rintro ⟨hl, hrec, hout, hin⟩
      exact ⟨hl, hrec, fun hn => Bool.noConfusion (hout.symm.trans hn.2.2), hin⟩
    · rintro ⟨hl, hrec, hout, hin⟩
      exact ⟨hl, hrec, Bool.eq_false_iff.2 fun hn => hout ⟨hl, hrec, hn⟩, hin⟩
  optionalOutputs i := by
    simp [ofArguments, Argument.isOptionalOutput, and_comm]
  optionalInputs i := by
    simp [ofArguments, Argument.isOptionalInput, and_comm]

end Placement

/-- The roles are the arguments at positions that follow the flags and are in no two places. -/
theorem Roles.ofArguments_placed (args : List Argument) : ∃ p : Placement args,
    p.roles = Roles.ofArguments args ∧ p.FollowsFlags ∧ p.Separates :=
  ⟨.ofArguments args, Placement.roles_ofArguments args, Placement.followsFlags_ofArguments args,
    (Placement.followsFlags_ofArguments args).separates⟩

end Autodoc
