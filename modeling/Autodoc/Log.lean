namespace Autodoc

inductive Level where
  | debug
  | info
  | warn
  deriving DecidableEq

def Level.name : Level → String
  | debug => "DEBUG"
  | info => "INFO"
  | warn => "WARN"

def Level.rank : Level → Nat
  | debug => 0
  | info => 1
  | warn => 2

structure Event where
  level : Level
  message : String
  fields : List (String × String)
  deriving DecidableEq

def Event.line (e : Event) : String :=
  e.level.name ++ " " ++ e.message ++ String.join (e.fields.map fun (k, v) => " " ++ k ++ "=" ++ v)

def Event.atLeast (l : Level) (es : List Event) : List Event :=
  es.filter fun e => l.rank ≤ e.level.rank

structure Logged (ε α : Type) where
  events : List Event
  outcome : Except ε α

namespace Logged

def bind (x : Logged ε α) (f : α → Logged ε β) : Logged ε β :=
  match x.outcome with
  | .error e => ⟨x.events, .error e⟩
  | .ok a => ⟨x.events ++ (f a).events, (f a).outcome⟩

instance : Monad (Logged ε) where
  pure a := ⟨[], .ok a⟩
  bind := bind

def fail (e : ε) : Logged ε α := ⟨[], .error e⟩

def note (level : Level) (message : String) (fields : List (String × String)) : Logged ε Unit :=
  ⟨[⟨level, message, fields⟩], .ok ()⟩

def ofExcept (x : Except ε α) : Logged ε α := ⟨[], x⟩

def mapError (f : ε → ε') (x : Logged ε α) : Logged ε' α := ⟨x.events, x.outcome.mapError f⟩

/-- Runs a computation on every element in order and stops at the first failure. -/
def each (f : α → Logged ε β) : List α → Logged ε (List β)
  | [] => pure []
  | a :: as => do
    let b ← f a
    let bs ← each f as
    pure (b :: bs)

@[simp] theorem outcome_pure (a : α) : (pure a : Logged ε α).outcome = .ok a := rfl

@[simp] theorem outcome_bind (x : Logged ε α) (f : α → Logged ε β) :
    (x >>= f).outcome = x.outcome.bind fun a => (f a).outcome := by
  show (bind x f).outcome = _
  unfold bind
  cases h : x.outcome <;> rfl

@[simp] theorem outcome_fail (e : ε) : (fail e : Logged ε α).outcome = .error e := rfl

@[simp] theorem outcome_note (l : Level) (m : String) (fs : List (String × String)) :
    (note l m fs : Logged ε Unit).outcome = .ok () := rfl

@[simp] theorem outcome_ofExcept (x : Except ε α) : (ofExcept x).outcome = x := rfl

@[simp] theorem outcome_mapError (f : ε → ε') (x : Logged ε α) :
    (mapError f x).outcome = x.outcome.mapError f := rfl

theorem outcome_bind_eq_ok_iff {x : Logged ε α} {f : α → Logged ε β} {b : β} :
    (x >>= f).outcome = .ok b ↔ ∃ a, x.outcome = .ok a ∧ (f a).outcome = .ok b := by
  rw [outcome_bind]
  cases x.outcome with
  | error e => simp [Except.bind]
  | ok a => simp [Except.bind]

theorem outcome_each_cons (f : α → Logged ε β) (a : α) (as : List α) : (each f (a :: as)).outcome =
    (f a).outcome.bind fun b => (each f as).outcome.bind fun bs => .ok (b :: bs) := by
  simp [each]

theorem outcome_each_ok {f : α → Logged ε β} {g : α → β} {as : List α}
    (h : ∀ a ∈ as, (f a).outcome = .ok (g a)) : (each f as).outcome = .ok (as.map g) := by
  induction as with
  | nil => rfl
  | cons a as ih =>
    have ha := h a List.mem_cons_self
    have has := ih fun b hb => h b (List.mem_cons_of_mem _ hb)
    rw [outcome_each_cons, ha, has]
    rfl

theorem bind_assoc (x : Logged ε α) (f : α → Logged ε β) (g : β → Logged ε γ) :
    bind (bind x f) g = bind x fun a => bind (f a) g := by
  obtain ⟨es, outcome⟩ := x
  cases outcome with
  | error e => rfl
  | ok a =>
    cases hf : (f a).outcome with
    | error e => simp only [bind, hf]
    | ok b => simp only [bind, hf, List.append_assoc]

theorem id_map (x : Logged ε α) : id <$> x = x := by
  obtain ⟨es, outcome⟩ := x
  cases outcome with
  | error e => rfl
  | ok a => exact congrArg (fun es => (⟨es, .ok a⟩ : Logged _ _)) (List.append_nil es)

theorem lawfulMonad : LawfulMonad (Logged ε) := .mk' (Logged ε) id_map (fun _ _ => rfl) bind_assoc

theorem each_eq_mapM (f : α → Logged ε β) (as : List α) : each f as = as.mapM f := by
  have : LawfulMonad (Logged ε) := lawfulMonad
  induction as with
  | nil => rw [each, List.mapM_nil]
  | cons a as ih => rw [each, List.mapM_cons, ih]

end Logged

/-- What a stateful computation leaves: its events, the state, which outlives a failure, and the outcome. -/
structure Step (σ ε α : Type) where
  events : List Event
  state : σ
  outcome : Except ε α

def Action (σ ε α : Type) := σ → Step σ ε α

namespace Action

def bind (x : Action σ ε α) (f : α → Action σ ε β) : Action σ ε β := fun s =>
  let r := x s
  match r.outcome with
  | .error e => ⟨r.events, r.state, .error e⟩
  | .ok a =>
    let r' := f a r.state
    ⟨r.events ++ r'.events, r'.state, r'.outcome⟩

instance : Monad (Action σ ε) where
  pure a := fun s => ⟨[], s, .ok a⟩
  bind := bind

def ask (f : σ → Logged ε α) : Action σ ε α := fun s => ⟨(f s).events, s, (f s).outcome⟩

def note (level : Level) (message : String) (fields : List (String × String)) : Action σ ε Unit :=
  ask fun _ => .note level message fields

def modify (f : σ → σ) : Action σ ε Unit := fun s => ⟨[], f s, .ok ()⟩

theorem bind_of_error {x : Action σ ε α} {f : α → Action σ ε β} {s : σ} {e : ε}
    (h : (x s).outcome = .error e) : (x >>= f) s = ⟨(x s).events, (x s).state, .error e⟩ := by
  show bind x f s = _
  simp only [bind, h]

theorem bind_of_ok {x : Action σ ε α} {f : α → Action σ ε β} {s : σ} {a : α}
    (h : (x s).outcome = .ok a) : (x >>= f) s =
      ⟨(x s).events ++ (f a (x s).state).events, (f a (x s).state).state, (f a (x s).state).outcome⟩ := by
  show bind x f s = _
  simp only [bind, h]

end Action

end Autodoc
