import Autodoc.Json.Schema.OfText

namespace Autodoc

structure TypeRecord where
  name : String
  parent : Option String
  nickname : Option String
  isAbstract : Bool
  isAnonymous : Bool
  deriving DecidableEq

structure ArgumentRecord where
  name : String
  flags : UInt32
  type : String
  blurb : String
  deriving DecidableEq

structure OperationRecord where
  description : String
  deprecated : Bool
  arguments : List ArgumentRecord
  deriving DecidableEq

structure PropertyRecord where
  name : String
  type : String
  blurb : String
  deriving DecidableEq

structure Snapshot where
  types : List TypeRecord
  operations : Table OperationRecord
  enums : Table (List String)
  properties : List PropertyRecord
  /-- Declared, but hidden until they are forced. -/
  lazyTypes : List String

open Json

def TypeRecord.schema : Schema TypeRecord :=
  .record "TypeRecord" ⟨"", none, none, false, false⟩ <|
    .field "name" .text (fun s r => { r with name := s }) <|
    .option "parent" (.nullable .text) (fun p r => { r with parent := p }) <|
    .option "nickname" (.nullable .text) (fun n r => { r with nickname := n }) <|
    .option "abstract" .bool (fun b r => { r with isAbstract := b }) <|
    .option "anonymous" .bool (fun b r => { r with isAnonymous := b }) .nil

def ArgumentRecord.schema : Schema ArgumentRecord :=
  .record "ArgumentRecord" ⟨"", 0, "", ""⟩ <|
    .field "name" .text (fun s r => { r with name := s }) <|
    .field "flags" .word (fun n r => { r with flags := n }) <|
    .field "type" .text (fun s r => { r with type := s }) <|
    .option "blurb" .text (fun s r => { r with blurb := s }) .nil

def OperationRecord.schema : Schema OperationRecord :=
  .record "OperationRecord" ⟨"", false, []⟩ <|
    .option "description" .text (fun s r => { r with description := s }) <|
    .option "deprecated" .bool (fun b r => { r with deprecated := b }) <|
    .option "arguments" (.list ArgumentRecord.schema) (fun as r => { r with arguments := as }) .nil

def PropertyRecord.schema : Schema PropertyRecord :=
  .record "PropertyRecord" ⟨"", "", ""⟩ <|
    .field "name" .text (fun s r => { r with name := s }) <|
    .field "type" .text (fun s r => { r with type := s }) <|
    .option "blurb" .text (fun s r => { r with blurb := s }) .nil

namespace Snapshot

def empty : Snapshot := ⟨[], {}, {}, [], []⟩

def schema : Schema Snapshot :=
  .record "Snapshot" empty <|
    .option "types" (.list TypeRecord.schema) (fun ts s => { s with types := ts }) <|
    .option "operations" (.table OperationRecord.schema) (fun os s => { s with operations := os }) <|
    .option "enums" (.table (.list .text)) (fun es s => { s with enums := es }) <|
    .option "image_properties" (.list PropertyRecord.schema)
      (fun ps s => { s with properties := ps }) <|
    .option "lazy_types" (.list .text) (fun ns s => { s with lazyTypes := ns }) .nil

def merge (s t : Snapshot) : Snapshot where
  types := s.types ++ t.types
  operations := s.operations.merge t.operations
  enums := s.enums.merge t.enums
  properties := s.properties ++ t.properties
  lazyTypes := s.lazyTypes ++ t.lazyTypes

def mergeAll (ss : List Snapshot) : Snapshot := ss.foldl merge empty

end Snapshot

end Autodoc
