import Autodoc.Config
import Autodoc.GenerateError
import Autodoc.Log

namespace Autodoc

def insertName (name : String) : List String → List String
  | [] => [name]
  | n :: ns =>
    if name < n then name :: n :: ns else if name = n then n :: ns else n :: insertName name ns

def sortedNames (names : List String) : List String := names.foldr insertName []

theorem length_filter_notMem_lt [DecidableEq α] {all seen : List α} {x : α} (hx : x ∈ all) (h : x ∉ seen) :
    (all.filter (· ∉ x :: seen)).length < (all.filter (· ∉ seen)).length := by
  have hsub : all.filter (· ∉ x :: seen) = (all.filter (· ∉ seen)).filter (· ≠ x) := by
    rw [List.filter_filter]
    congr 1
    funext y
    simp [List.mem_cons, not_or]
  rw [hsub]
  apply Nat.lt_of_le_of_ne (List.length_filter_le ..)
  intro he
  have := List.filter_eq_self.1 ((List.filter_sublist).eq_of_length he) x
    (List.mem_filter.2 ⟨hx, by simpa using h⟩)
  simp at this

/-- Visits what is on the stack, top first, each type of `all` once; returns all that was seen, first first. -/
def visit [DecidableEq α] (children : α → List α) (all : List α) (stack seen : List α) : List α :=
  match stack with
  | [] => seen.reverse
  | x :: stack =>
    if _h : x ∈ all ∧ x ∉ seen then visit children all (children x ++ stack) (x :: seen)
    else visit children all stack seen
termination_by ((all.filter (· ∉ seen)).length, stack.length)
decreasing_by
  · exact Prod.Lex.left _ _ (length_filter_notMem_lt _h.1 _h.2)
  · exact Prod.Lex.right _ (by simp)

/-- The names accepted below a root. Each type of `all` that the visit comes to is offered, in the order of the
visit. -/
def Walk.collect [DecidableEq α] [Monad m] (children : α → List α) (all : List α) (root : α)
    (accept : α → m (Option String)) : m (List String) := do
  let names ← (visit children all (children root) []).mapM accept
  pure (sortedNames (names.filterMap id))

namespace Registry

def below (r : Registry) (root : String) : List String :=
  visit r.children r.snapshot.typeNames (r.children root) []

def collect (r : Registry) (root : String) (accept : String → Logged ε (Option String)) :
    Logged ε (List String) :=
  Walk.collect r.children r.snapshot.typeNames root accept

end Registry

/-- Nicknames in strictly increasing order. -/
structure NicknameSet where
  names : Array String

namespace NicknameSet

def toList (s : NicknameSet) : List String := s.names.toList

def size (s : NicknameSet) : Nat := s.names.size

def isEmpty (s : NicknameSet) : Bool := s.names.isEmpty

def search (names : Array String) (name : String) (low high : Nat) : Bool :=
  if low < high then
    let mid := (low + high) / 2
    match names[mid]? with
    | none => false
    | some n =>
      if name < n then search names name low mid
      else if name = n then true
      else search names name (mid + 1) high
  else false
termination_by high - low
decreasing_by all_goals omega

def contains (s : NicknameSet) (name : String) : Bool := search s.names name 0 s.names.size

end NicknameSet

namespace Walk

/-- Accepts the nickname of an operation that exists, is not abstract and is not deprecated. -/
def acceptOperation (r : Registry) (type : String) : Logged ε (Option String) :=
  match r.nickname? type with
  | none => pure none
  | some nickname =>
    match r.operation nickname with
    | .ok op =>
      if op.deprecated then do
        .note .debug "skipping deprecated operation" [("nickname", nickname)]
        pure none
      else pure (some nickname)
    | .error e => do
      .note .debug "skipping" [("nickname", nickname), ("error", e.message)]
      pure none

def acceptEnum (r : Registry) (type : String) : Logged ε (Option String) :=
  let d := r.describe type
  if r.isAbstract type || !d.isEnum then pure none
  else do
    if d.name.isNone then
      .note .warn "skipping enum the registry cannot name"
        [("ty", "TypeId(" ++ toString (r.indexOf type) ++ ")")]
    pure d.name

end Walk

namespace Registry

def root (r : Registry) (name : String) : Except GenerateError String :=
  if r.sees name then .ok name else .error (.missingRoot name)

def nicknames (r : Registry) (c : Config) : Logged GenerateError NicknameSet := do
  let root ← .ofExcept (r.root c.operationRoot)
  let found ← r.collect root (Walk.acceptOperation r)
  let names := sortedNames (found ++ c.synonyms)
  pure ⟨(names.filter fun n => !c.denyList.contains n).toArray⟩

def enumTypeNames (r : Registry) (c : Config) : Logged GenerateError (List String) := do
  let root ← .ofExcept (r.root c.enumRoot)
  r.collect root (Walk.acceptEnum r)

end Registry

end Autodoc
