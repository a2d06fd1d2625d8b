import Autodoc.Json.Schema.OfText

namespace Autodoc

/-- What becomes of a type that no table maps. -/
inductive UnknownTypes where
  | sentinel
  | fail
  deriving DecidableEq

structure HeaderConfig where
  phpVersion : String
  copyrightYear : String
  copyrightHolder : String
  category : String
  author : String
  license : String
  link : String
  deriving DecidableEq

structure Config where
  libraryPrefix : String
  hostNamespace : String
  operationRoot : String
  enumRoot : String
  autodocClass : String
  denyList : List String
  /-- Nicknames that are documented even though the walk does not find them. -/
  synonyms : List String
  lazyEnumTypes : List String
  reservedNames : Table String
  unknownTypes : UnknownTypes
  argumentOverrides : Table String
  resultOverrides : Table String
  header : HeaderConfig

namespace HeaderConfig

def default : HeaderConfig where
  phpVersion := "7"
  copyrightYear := "2016"
  copyrightHolder := "John Cupitt"
  category := "Images"
  author := "John Cupitt <jcupitt@gmail.com>"
  license := "https://opensource.org/licenses/MIT MIT"
  link := "https://github.com/jcupitt/php-vips"

open Json in
def schema : Schema HeaderConfig :=
  .record "HeaderConfig" default <|
    .option "php_version" .text (fun s c => { c with phpVersion := s }) <|
    .option "copyright_year" .text (fun s c => { c with copyrightYear := s }) <|
    .option "copyright_holder" .text (fun s c => { c with copyrightHolder := s }) <|
    .option "category" .text (fun s c => { c with category := s }) <|
    .option "author" .text (fun s c => { c with author := s }) <|
    .option "license" .text (fun s c => { c with license := s }) <|
    .option "link" .text (fun s c => { c with link := s }) .nil

end HeaderConfig

namespace Config

def default : Config where
  libraryPrefix := "Vips"
  hostNamespace := "Jcupitt\\Vips"
  operationRoot := "VipsOperation"
  enumRoot := "GEnum"
  autodocClass := "ImageAutodoc"
  denyList := ["bandjoin", "bandrank", "ifthenelse", "add", "subtract", "multiply", "divide", "remainder"]
  synonyms := ["crop"]
  lazyEnumTypes := ["VipsToken", "VipsSaveable", "VipsImageType"]
  reservedNames :=
    .ofList [("DEFAULT", "DEFAULT1"), ("XOR", "XOR1"), ("AND", "AND1"), ("OR", "OR1")]
  unknownTypes := .sentinel
  argumentOverrides := {}
  resultOverrides := {}
  header := .default

open Json in
def schema : Schema Config :=
  .record "GeneratorConfig" default <|
    .option "library_prefix" .text (fun s c => { c with libraryPrefix := s }) <|
    .option "namespace" .text (fun s c => { c with hostNamespace := s }) <|
    .option "operation_root" .text (fun s c => { c with operationRoot := s }) <|
    .option "enum_root" .text (fun s c => { c with enumRoot := s }) <|
    .option "autodoc_class" .text (fun s c => { c with autodocClass := s }) <|
    .option "deny_list" (.list .text) (fun ns c => { c with denyList := ns }) <|
    .option "synonyms" (.list .text) (fun ns c => { c with synonyms := ns }) <|
    .option "lazy_enum_types" (.list .text) (fun ns c => { c with lazyEnumTypes := ns }) <|
    .option "reserved_names" (.table .text) (fun t c => { c with reservedNames := t }) <|
    .option "unknown_types" (.choice [("sentinel", .sentinel), ("fail", .fail)])
      (fun u c => { c with unknownTypes := u }) <|
    .option "argument_overrides" (.table .text) (fun t c => { c with argumentOverrides := t }) <|
    .option "result_overrides" (.table .text) (fun t c => { c with resultOverrides := t }) <|
    .option "header" HeaderConfig.schema (fun h c => { c with header := h }) .nil

/-- The name without the library prefix, which is dropped once. -/
def stripPrefix (c : Config) (name : String) : String :=
  if c.libraryPrefix.toList.isPrefixOf name.toList then
    String.ofList (name.toList.drop c.libraryPrefix.toList.length)
  else name

end Config

end Autodoc
