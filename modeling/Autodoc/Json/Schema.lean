import Autodoc.Json.Problem

namespace Autodoc.Json

mutual

inductive Schema : Type → Type 1 where
  | text : Schema String
  | bool : Schema Bool
  | word : Schema UInt32
  | nullable (s : Schema α) : Schema (Option α)
  | list (s : Schema α) : Schema (List α)
  | table (s : Schema α) : Schema (Table α)
  /-- One of several names; also written as the only key of an object, with `null` for its value. -/
  | choice (variants : List (String × α)) : Schema α
  /-- A record, read from an object or from a list of its fields in order. Fields that are not given keep
  what they have in `blank`. -/
  | record (name : String) (blank : α) (slots : Slots α) : Schema α

/-- The fields of a record: name, whether it must be given, how it is read and where it is put. -/
inductive Slots : Type → Type 1 where
  | nil : Slots α
  | cons (name : String) (required : Bool) (s : Schema β) (set : β → α → α) (rest : Slots α) : Slots α

end

def Slots.names : Slots α → List String
  | .nil => []
  | .cons name _ _ _ rest => name :: rest.names

def Slots.size : Slots α → Nat
  | .nil => 0
  | .cons _ _ _ _ rest => rest.size + 1

def Slots.missing? (given : List String) : Slots α → Option String
  | .nil => none
  | .cons name required _ _ rest =>
    if required && !given.contains name then some name else rest.missing? given

def Slots.field (name : String) (s : Schema β) (set : β → α → α) (rest : Slots α) : Slots α :=
  .cons name true s set rest

def Slots.option (name : String) (s : Schema β) (set : β → α → α) (rest : Slots α) : Slots α :=
  .cons name false s set rest

end Autodoc.Json
