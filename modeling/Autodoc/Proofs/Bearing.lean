import Mathlib.Data.Nat.Bitwise
import Autodoc.Proofs.AutodocParts
import Autodoc.Proofs.Requirements

namespace Autodoc

theorem Logged.each_map (f : β → Logged ε γ) (g : α → β) (as : List α) :
    Logged.each f (as.map g) = Logged.each (fun a => f (g a)) as := by
  induction as with
  | nil => rfl
  | cons a as ih => rw [List.map_cons, Logged.each, Logged.each, ih]

section Among

variable {l : List α} {p q among : α → Bool}

theorem filter_filter_among (hq : ∀ a ∈ l, q a = true → among a = true) : (l.filter among).filter q = l.filter q := by
  rw [List.filter_filter]
  apply List.filter_congr
  intro a ha
  cases hqa : q a with
  | false => rfl
  | true => rw [hq a ha hqa, Bool.and_true]

theorem find?_filter_among (hp : ∀ a ∈ l, p a = true → among a = true) : (l.filter among).find? p = l.find? p := by
  rw [← List.head?_filter, ← List.head?_filter, filter_filter_among hp]

theorem filter_eraseP_among (hp : ∀ a ∈ l, p a = true → among a = true) (hq : ∀ a ∈ l, q a = true → among a = true) :
    ((l.filter among).eraseP p).filter q = (l.eraseP p).filter q := by
  induction l with
  | nil => rfl
  | cons a l ih =>
    obtain ⟨hpa, hpl⟩ := List.forall_mem_cons.1 hp
    obtain ⟨hqa, hql⟩ := List.forall_mem_cons.1 hq
    by_cases hfound : p a = true
    · rw [List.filter_cons_of_pos (hpa hfound), List.eraseP_cons_of_pos hfound, List.eraseP_cons_of_pos hfound,
        filter_filter_among hql]
    · rw [List.eraseP_cons_of_neg hfound]
      by_cases ha : among a = true
      · rw [List.filter_cons_of_pos ha, List.eraseP_cons_of_neg hfound, List.filter_cons, List.filter_cons,
          ih hpl hql]
      · rw [List.filter_cons_of_neg ha, List.filter_cons_of_neg (mt hqa ha), ih hpl hql]

end Among

namespace Argument

def bears (a : Argument) : Bool := a.isLive && a.flags.required && (a.flags.input || a.flags.output)

def plain (a : Argument) : Argument :=
  { a with flags := { a.flags with construct := false, setOnce := false, setAlways := false } }

/-- What a signature can see of arguments. -/
def bearing (args : List Argument) : List Argument := (args.filter (·.bears)).map plain

variable {a : Argument}

theorem bears_iff : a.bears = true ↔
    a.isLive = true ∧ a.flags.required = true ∧ (a.flags.input = true ∨ a.flags.output = true) := by
  rw [bears, Bool.and_eq_true, Bool.and_eq_true, Bool.or_eq_true, and_assoc]

theorem bears_of_isReceiver (hl : a.isLive = true) (h : a.isReceiver = true) : a.bears = true := by
  obtain ⟨_, hr, hi, _⟩ := canReceive_iff.2 ⟨hl, h⟩
  exact bears_iff.2 ⟨hl, hr, .inl hi⟩

theorem bears_of_isOutput (hl : a.isLive = true) (h : a.isOutput = true) : a.bears = true := by
  obtain ⟨hr, ho | ⟨hi, _⟩⟩ := isOutput_iff.1 h
  · exact bears_iff.2 ⟨hl, hr, .inr ho⟩
  · exact bears_iff.2 ⟨hl, hr, .inl hi⟩

theorem bears_of_isInput (hl : a.isLive = true) (h : a.isInput = true) : a.bears = true := by
  obtain ⟨_, hr, hi⟩ := isInput_iff.1 h
  exact bears_iff.2 ⟨hl, hr, .inl hi⟩

end Argument

def Requirement.argument : Requirement → Argument
  | host a _ => a
  | enumName a => a

theorem Requirement.name_of_error {q : Requirement} {nickname field : String}
    (h : (∃ type, q.error nickname = .unmappedType nickname field type) ∨
      q.error nickname = .anonymousEnum nickname field) : q.argument.name = field := by
  cases q with
  | host a u =>
    rcases h with ⟨type, h⟩ | h
    · exact (GenerateError.unmappedType.inj h).2.1
    · cases h
  | enumName a =>
    rcases h with ⟨type, h⟩ | h
    · cases h
    · exact (GenerateError.anonymousEnum.inj h).2

namespace Roles

/-- The roles that a signature looks at are played by the same arguments, but for flags that it does not look at. -/
structure Plainly (roles plain : Roles) : Prop where
  receiver : plain.receiver = roles.receiver.map Argument.plain
  inputs : plain.inputs = roles.inputs.map Argument.plain
  outputs : plain.outputs = roles.outputs.map Argument.plain

theorem plainly_map (args : List Argument) : (ofArguments args).Plainly (ofArguments (args.map Argument.plain)) := by
  constructor <;> (simp only [ofArguments, List.filter_map, List.eraseP_map, List.find?_map]; rfl)

section Bears

variable (args : List Argument)

theorem live_filter_bears :
    (args.filter (·.bears)).filter (·.isLive) = (args.filter (·.isLive)).filter (·.bears) :=
  List.filter_comm ..

variable {args} in
theorem bears_among_live {p : Argument → Bool}
    (h : ∀ {a : Argument}, a.isLive = true → p a = true → a.bears = true) :
    ∀ a ∈ args.filter (·.isLive), p a = true → a.bears = true :=
  fun _ ha => h (List.mem_filter.1 ha).2

theorem receiver_filter_bears : (ofArguments (args.filter (·.bears))).receiver = (ofArguments args).receiver := by
  rw [ofArguments, live_filter_bears, find?_filter_among (bears_among_live Argument.bears_of_isReceiver),
    ofArguments]

theorem inputs_filter_bears : (ofArguments (args.filter (·.bears))).inputs = (ofArguments args).inputs := by
  rw [ofArguments, live_filter_bears, filter_eraseP_among (bears_among_live Argument.bears_of_isReceiver)
    (bears_among_live Argument.bears_of_isInput), ofArguments]

theorem outputs_filter_bears : (ofArguments (args.filter (·.bears))).outputs = (ofArguments args).outputs := by
  rw [ofArguments, live_filter_bears, filter_eraseP_among (bears_among_live Argument.bears_of_isReceiver)
    (bears_among_live Argument.bears_of_isOutput), ofArguments]

theorem plainly_bearing : (ofArguments args).Plainly (ofArguments (Argument.bearing args)) := by
  have h := plainly_map (args.filter (·.bears))
  constructor
  · rw [Argument.bearing, h.receiver, receiver_filter_bears]
  · rw [Argument.bearing, h.inputs, inputs_filter_bears]
  · rw [Argument.bearing, h.outputs, outputs_filter_bears]

end Bears

theorem bears_of_shown {args : List Argument} {a : Argument}
    (h : a ∈ (ofArguments args).outputs ++ (ofArguments args).inputs) : a ∈ args ∧ a.bears = true := by
  rw [← outputs_filter_bears, ← inputs_filter_bears] at h
  apply List.mem_filter.1
  rcases List.mem_append.1 h with h | h
  · exact mem_outputs h
  · exact mem_inputs h

variable {roles plain : Roles}

theorem argument_of_mem_requirements {q : Requirement} (h : q ∈ roles.requirements) :
    q.argument ∈ roles.outputs ++ roles.inputs := by
  rw [requirements, List.mem_append, List.mem_append, List.mem_append] at h
  rcases h with h | h | h | h
  · cases hs : roles.returnShape with
    | single a =>
      rw [hs, ReturnShape.requirements, List.mem_singleton] at h
      rw [h, returnShape_eq_single hs]
      exact List.mem_cons_self
    | _ =>
      rw [hs] at h
      cases h
  · obtain ⟨a, ha, rfl⟩ := List.mem_map.1 h
    exact List.mem_append_right _ ha
  · obtain ⟨a, ha, rfl⟩ := List.mem_map.1 h
    exact List.mem_of_mem_filter ha
  · split at h
    · obtain ⟨a, ha, rfl⟩ := List.mem_map.1 h
      exact List.mem_append_left _ ha
    · cases h

theorem Plainly.enumArguments (h : roles.Plainly plain) :
    plain.enumArguments = roles.enumArguments.map Argument.plain := by
  rw [Roles.enumArguments, h.outputs, h.inputs, ← List.map_append, List.filter_map]
  rfl

theorem Plainly.isStatic (h : roles.Plainly plain) : plain.isStatic = roles.isStatic := by
  rw [Roles.isStatic, h.receiver, Option.isNone_map, Roles.isStatic]

theorem Plainly.returnShape_eq_aggregate_iff (h : roles.Plainly plain) :
    plain.returnShape = .aggregate ↔ roles.returnShape = .aggregate := by
  rw [Roles.returnShape_eq_aggregate_iff, h.outputs, List.length_map, ← Roles.returnShape_eq_aggregate_iff]

end Roles

namespace Signature

variable {c : Config}

theorem returnType_plainly {roles plain : Roles} (h : roles.Plainly plain) (nickname : String) :
    returnType c nickname plain.returnShape = returnType c nickname roles.returnShape := by
  rw [Roles.returnShape, Roles.returnShape, h.outputs]
  rcases roles.outputs with _ | ⟨a, _ | ⟨b, os⟩⟩ <;> rfl

/-- A signature is made of no more than what bears on it. -/
theorem ofOperation_bearing (op : Operation) :
    ofOperation c { op with arguments := Argument.bearing op.arguments } = ofOperation c op := by
  have h := Roles.plainly_bearing op.arguments
  simp only [ofOperation, returnType_plainly h, h.inputs, h.outputs, h.enumArguments, h.isStatic,
    h.returnShape_eq_aggregate_iff, Logged.each_map]
  rfl

end Signature

namespace ArgumentFlags

theorem and_ne_zero_iff {n bit : UInt32} {i : Nat} (h : bit.toNat = 2 ^ i) :
    n &&& bit ≠ 0 ↔ n.toNat.testBit i = true := by
  rw [Ne, ← UInt32.toNat_inj, UInt32.toNat_and, h, Nat.and_two_pow]
  cases n.toNat.testBit i <;> simp

def bearingBits : UInt32 := 1 ||| 16 ||| 32 ||| 128

theorem ofBits_and_bearingBits (n : UInt32) : ofBits (n &&& bearingBits) =
    { ofBits n with construct := false, setOnce := false, setAlways := false, deprecated := false } := by
  have hmask : bearingBits.toNat = 177 := by decide
  simp only [ofBits, UInt32.toNat_and, Nat.testBit_and, hmask, ArgumentFlags.mk.injEq]
  exact ⟨Bool.and_true _, Bool.and_false _, Bool.and_false _, Bool.and_false _, Bool.and_true _, Bool.and_true _,
    Bool.and_false _, Bool.and_true _⟩

end ArgumentFlags

namespace ArgumentRecord

/-- Not deprecated, required, and an input or an output, by the bits of the recorded word. -/
def Bears (a : ArgumentRecord) : Prop :=
  a.flags &&& 64 = 0 ∧ a.flags &&& 1 ≠ 0 ∧ (a.flags &&& 16 ≠ 0 ∨ a.flags &&& 32 ≠ 0)

instance (a : ArgumentRecord) : Decidable a.Bears := inferInstanceAs (Decidable (_ ∧ _))

def masked (a : ArgumentRecord) : ArgumentRecord := { a with flags := a.flags &&& ArgumentFlags.bearingBits }

theorem bears_iff {a : ArgumentRecord} : a.Bears ↔
    (ArgumentFlags.ofBits a.flags).deprecated = false ∧ (ArgumentFlags.ofBits a.flags).required = true ∧
      ((ArgumentFlags.ofBits a.flags).input = true ∨ (ArgumentFlags.ofBits a.flags).output = true) := by
  have hdeprecated : a.flags &&& 64 = 0 ↔ a.flags.toNat.testBit 6 = false := by
    rw [← not_iff_not, Bool.not_eq_false]
    exact ArgumentFlags.and_ne_zero_iff rfl
  have hrequired : a.flags &&& 1 ≠ 0 ↔ a.flags.toNat.testBit 0 = true := ArgumentFlags.and_ne_zero_iff rfl
  have hinput : a.flags &&& 16 ≠ 0 ↔ a.flags.toNat.testBit 4 = true := ArgumentFlags.and_ne_zero_iff rfl
  have houtput : a.flags &&& 32 ≠ 0 ↔ a.flags.toNat.testBit 5 = true := ArgumentFlags.and_ne_zero_iff rfl
  rw [Bears, hdeprecated, hrequired, hinput, houtput]
  rfl

end ArgumentRecord

def OperationRecord.bearing (o : OperationRecord) : List ArgumentRecord :=
  (o.arguments.filter fun a => a.Bears).map (·.masked)

namespace Registry

variable {r r' : Registry} {c : Config} {nickname : String} {o o' : OperationRecord}

theorem bears_described (a : ArgumentRecord) : (r.described a).bears = decide a.Bears := by
  rw [Bool.eq_iff_iff, decide_eq_true_iff, Argument.bears_iff, ArgumentRecord.bears_iff, Argument.isLive,
    Bool.not_eq_true', described]

theorem described_masked {a : ArgumentRecord} (h : a.Bears) : r.described a.masked = (r.described a).plain := by
  have hlive := (ArgumentRecord.bears_iff.1 h).1
  rw [described, ArgumentRecord.masked, ArgumentFlags.ofBits_and_bearingBits, Argument.plain, described, ← hlive]

theorem bearing_described (r : Registry) (o : OperationRecord) :
    Argument.bearing (o.arguments.map r.described) = o.bearing.map r.described := by
  have hbears : Argument.bears ∘ r.described = fun a => decide a.Bears := funext bears_described
  rw [Argument.bearing, OperationRecord.bearing, List.filter_map, List.map_map, List.map_map]
  show List.map _ (List.filter (Argument.bears ∘ r.described) _) = _
  rw [hbears]
  apply List.map_congr_left
  intro a ha
  exact (described_masked (of_decide_eq_true (List.mem_filter.1 ha).2)).symm

theorem operation_of_recorded (h : r.snapshot.operations.get? nickname = some o) : r.operation nickname =
    if (r.carrier? nickname).any r.isAbstract then .error (.abstract nickname) else .ok (r.recorded nickname o) := by
  simp only [operation, h, arguments_eq_ok h]
  rfl

section SameTypes

variable (h : r.snapshot.types = r'.snapshot.types)
include h

theorem record?_of_types (name : String) : r.snapshot.record? name = r'.snapshot.record? name := by
  rw [Snapshot.record?, Snapshot.record?, h]

theorem climb_of_types (fuel : Nat) (name : String) : r.snapshot.climb fuel name = r'.snapshot.climb fuel name := by
  induction fuel generalizing name with
  | zero => rfl
  | succ fuel ih => simp only [Snapshot.climb, Snapshot.parent?, record?_of_types h, ih]

theorem describe_of_types : r.describe = r'.describe := by
  funext name
  have hanonymous : r.isAnonymous name = r'.isAnonymous name := by
    rw [isAnonymous, isAnonymous, record?_of_types h]
  have hkind : r.snapshot.kindOf name = r'.snapshot.kindOf name := by
    simp only [Snapshot.kindOf, Snapshot.chain, Snapshot.typeNames, Snapshot.declared, climb_of_types h, h]
  rw [describe, describe, hkind, hanonymous]

theorem isAbstract_of_types : r.isAbstract = r'.isAbstract := by
  funext name
  rw [isAbstract, isAbstract, record?_of_types h]

theorem carrier?_of_types (nickname : String) : r.carrier? nickname = r'.carrier? nickname := by
  have hnickname : r.nickname? = r'.nickname? := by
    funext name
    rw [nickname?, nickname?, record?_of_types h]
  rw [carrier?, carrier?, hnickname, Snapshot.typeNames, Snapshot.typeNames, Snapshot.declared, Snapshot.declared, h]

theorem described_of_types : r.described = r'.described := by
  funext a
  rw [described, described, describe_of_types h]

end SameTypes

theorem signature_of_recorded (h : r.snapshot.operations.get? nickname = some o) : r.signature c nickname =
    if (r.carrier? nickname).any r.isAbstract then .fail (.operation nickname (.abstract nickname))
    else Signature.ofOperation c
      ⟨nickname, o.description, o.deprecated, Argument.bearing (o.arguments.map r.described)⟩ := by
  rw [signature, operationOf, operation_of_recorded h]
  split
  · rfl
  · exact (Signature.ofOperation_bearing (r.recorded nickname o)).symm

theorem exists_requirement_of_error (h : r.snapshot.operations.get? nickname = some o) {e : GenerateError}
    (he : (r.signature c nickname).outcome = .error e) (hother : ∀ source, e ≠ .operation nickname source) :
    ∃ q ∈ (r.rolesOf o).requirements, q.error nickname = e := by
  rcases (signature_eq_error_iff h).1 he with ⟨source, _, hsource⟩ | ⟨_, q, ⟨_, _, hall, _⟩, hfault⟩
  · exact absurd hsource (hother source)
  · exact ⟨q, hall ▸ List.mem_append_right _ List.mem_cons_self, hfault.symm⟩

theorem exists_bears_of_error (h : r.snapshot.operations.get? nickname = some o) {field : String}
    (he : (∃ type, (r.signature c nickname).outcome = .error (.unmappedType nickname field type)) ∨
      (r.signature c nickname).outcome = .error (.anonymousEnum nickname field)) :
    ∃ a ∈ o.arguments, a.Bears ∧ a.name = field := by
  obtain ⟨q, hq, hfield⟩ : ∃ q ∈ (r.rolesOf o).requirements, q.argument.name = field := by
    rcases he with ⟨type, he⟩ | he
    · obtain ⟨q, hq, hfault⟩ := exists_requirement_of_error h he nofun
      exact ⟨q, hq, Requirement.name_of_error (.inl ⟨type, hfault⟩)⟩
    · obtain ⟨q, hq, hfault⟩ := exists_requirement_of_error h he nofun
      exact ⟨q, hq, Requirement.name_of_error (.inr hfault)⟩
  obtain ⟨hmem, hbears⟩ := Roles.bears_of_shown (Roles.argument_of_mem_requirements hq)
  obtain ⟨a, ha, hdescribed⟩ := List.mem_map.1 hmem
  rw [← hdescribed, bears_described, decide_eq_true_iff] at hbears
  rw [← hdescribed] at hfield
  exact ⟨a, ha, hbears, hfield⟩

/-- Registries of the same types make the same of operations that are described alike and agree on the arguments that
bear, whatever else is recorded of either; and what they report of an argument is about one that bears. -/
theorem signature_of_bearing (htypes : r.snapshot.types = r'.snapshot.types)
    (h : r.snapshot.operations.get? nickname = some o) (h' : r'.snapshot.operations.get? nickname = some o')
    (hdescription : o.description = o'.description) (hbearing : o.bearing = o'.bearing) :
    r.signature c nickname = r'.signature c nickname ∧
    ∀ field, ((∃ type, (r.signature c nickname).outcome = .error (.unmappedType nickname field type)) ∨
        (r.signature c nickname).outcome = .error (.anonymousEnum nickname field)) →
      ∃ a ∈ o.arguments, a.Bears ∧ a.name = field := by
  refine ⟨?_, fun field he => exists_bears_of_error h he⟩
  rw [signature_of_recorded h, signature_of_recorded h', carrier?_of_types htypes, isAbstract_of_types htypes,
    bearing_described, bearing_described, described_of_types htypes, hbearing, hdescription]
  rfl

/-- An operation that takes a function, however it is recorded, beside an enum that has no name. -/
def callingSnapshot (o : OperationRecord) : Snapshot where
  types :=
    [⟨"VipsOperation", some "GObject", none, true, false⟩,
      ⟨"VipsEvalHook", some "VipsOperation", some "eval_hook", false, false⟩, ⟨"VipsHookFn", none, none, false, false⟩,
      ⟨"VipsMode", some "GEnum", none, false, true⟩]
  operations := .ofList [("eval_hook", o)]
  enums := {}
  properties := []
  lazyTypes := []

def calling (o : OperationRecord) (sound : (callingSnapshot o).defect? = none) : Registry := ⟨callingSnapshot o, sound, []⟩

/-- The function among arguments that do not bear: one deprecated, two optional, and one that is neither an input nor
an output. -/
def ladenRecord : OperationRecord :=
  ⟨"call a function", true,
    [⟨"old", 83, "VipsHookFn", ""⟩, ⟨"in", 4123, "VipsImage", ""⟩, ⟨"mode", 18, "VipsMode", ""⟩,
      ⟨"hook", 21, "VipsHookFn", ""⟩, ⟨"made", 1, "VipsHookFn", ""⟩, ⟨"count", 34, "gint", ""⟩]⟩

theorem signature_of_bearing_laden :
    (callingSnapshot hookRecord).operations.get? "eval_hook" = some hookRecord ∧
    (callingSnapshot ladenRecord).operations.get? "eval_hook" = some ladenRecord ∧
    hookRecord.bearing = ladenRecord.bearing ∧
    (calling hookRecord (by decide)).signature Config.bare.strict "eval_hook" =
      (calling ladenRecord (by decide)).signature Config.bare.strict "eval_hook" ∧
    ((calling ladenRecord (by decide)).signature Config.bare.strict "eval_hook").outcome =
      .error (.unmappedType "eval_hook" "hook" "VipsHookFn") ∧
    ∃ a ∈ ladenRecord.arguments, a.Bears ∧ a.name = "hook" := by
  have hplain : (callingSnapshot hookRecord).operations.get? "eval_hook" = some hookRecord := by decide
  have hladen : (callingSnapshot ladenRecord).operations.get? "eval_hook" = some ladenRecord := by decide
  have hbearing : hookRecord.bearing = ladenRecord.bearing := by decide
  have hfails : ((calling hookRecord (by decide)).signature Config.bare.strict "eval_hook").outcome =
      .error (.unmappedType "eval_hook" "hook" "VipsHookFn") := rfl
  obtain ⟨hsame, _⟩ : (calling hookRecord (by decide)).signature Config.bare.strict "eval_hook" =
      (calling ladenRecord (by decide)).signature Config.bare.strict "eval_hook" ∧ _ :=
    signature_of_bearing rfl hplain hladen rfl hbearing
  rw [hsame] at hfails
  obtain ⟨_, hblames⟩ : (calling ladenRecord (by decide)).signature Config.bare.strict "eval_hook" =
      (calling hookRecord (by decide)).signature Config.bare.strict "eval_hook" ∧ _ :=
    signature_of_bearing rfl hladen hplain rfl hbearing.symm
  exact ⟨hplain, hladen, hbearing, hsame, hfails, hblames "hook" (.inl ⟨_, hfails⟩)⟩

end Registry

end Autodoc
