import Autodoc.Decimal.Layout
import Autodoc.Json.Value
import Autodoc.Text.Quoted

namespace Autodoc.Json

inductive Flaw where
  | endInList
  | endInObject
  | endInString
  | endInValue
  | expectedColon
  | expectedListCommaOrEnd
  | expectedObjectCommaOrEnd
  | expectedWord
  | expectedValue
  | invalidEscape
  | invalidNumber
  | numberOutOfRange
  | controlCharacter
  | keyNotText
  | loneSurrogate
  | brokenSurrogatePair
  | trailingComma
  | trailingCharacters
  | nestedTooDeep
  deriving DecidableEq

def Flaw.message : Flaw → String
  | endInList => "EOF while parsing a list"
  | endInObject => "EOF while parsing an object"
  | endInString => "EOF while parsing a string"
  | endInValue => "EOF while parsing a value"
  | expectedColon => "expected `:`"
  | expectedListCommaOrEnd => "expected `,` or `]`"
  | expectedObjectCommaOrEnd => "expected `,` or `\x7d`"
  | expectedWord => "expected ident"
  | expectedValue => "expected value"
  | invalidEscape => "invalid escape"
  | invalidNumber => "invalid number"
  | numberOutOfRange => "number out of range"
  | controlCharacter => "control character (\\u0000-\\u001F) found while parsing a string"
  | keyNotText => "key must be a string"
  | loneSurrogate => "lone leading surrogate in hex escape"
  | brokenSurrogatePair => "unexpected end of hex escape"
  | trailingComma => "trailing comma"
  | trailingCharacters => "trailing characters"
  | nestedTooDeep => "recursion limit exceeded"

inductive Found where
  | null
  | bool (b : Bool)
  | int (n : Int)
  | float (x : Float)
  | text (s : String)
  | list
  | object

def Found.ofNumber : Number → Found
  | .int n => int n
  | .float x => float x

def Found.ofValue : Value → Found
  | .null => null
  | .bool b => bool b
  | .number n => ofNumber n
  | .text s => text s
  | .list _ => list
  | .object _ => object

def Found.shown : Found → String
  | null => "null"
  | bool b => "boolean `" ++ (if b then "true" else "false") ++ "`"
  | int n => "integer `" ++ toString n ++ "`"
  | float x => "floating point `" ++ Decimal.Layout.json.render x ++ "`"
  | text s => "string " ++ Text.quoted s
  | list => "sequence"
  | object => "map"

inductive Expected where
  | text
  | variant
  | bool
  | word
  | null
  | list
  | table
  | textOrTable
  | singleEntry
  | record (name : String)
  | recordOf (name : String) (fields : Nat)
  | fewerItems
  deriving DecidableEq

def Expected.shown : Expected → String
  | text => "a string"
  | variant => "variant identifier"
  | bool => "a boolean"
  | word => "u32"
  | null => "unit"
  | list => "a sequence"
  | table => "a map"
  | textOrTable => "string or map"
  | singleEntry => "map with a single key"
  | record name => "struct " ++ name
  | recordOf name fields => "struct " ++ name ++ " with " ++ toString fields ++ " elements"
  | fewerItems => "fewer elements in array"

inductive Problem where
  | flaw (f : Flaw)
  | invalidType (found : Found) (expected : Expected)
  | invalidValue (found : Found) (expected : Expected)
  | invalidLength (length : Nat) (expected : Expected)
  | unknownVariant (name : String) (known : List String)
  | missingField (name : String)
  | duplicateField (name : String)

def alternatives : List String → String
  | [] => "there are no variants"
  | [a] => "expected `" ++ a ++ "`"
  | [a, b] => "expected `" ++ a ++ "` or `" ++ b ++ "`"
  | names => "expected one of " ++ ", ".intercalate (names.map fun n => "`" ++ n ++ "`")

def Problem.message : Problem → String
  | flaw f => f.message
  | invalidType found expected => "invalid type: " ++ found.shown ++ ", expected " ++ expected.shown
  | invalidValue found expected => "invalid value: " ++ found.shown ++ ", expected " ++ expected.shown
  | invalidLength n expected => "invalid length " ++ toString n ++ ", expected " ++ expected.shown
  | unknownVariant name known => "unknown variant `" ++ name ++ "`, " ++ alternatives known
  | missingField name => "missing field `" ++ name ++ "`"
  | duplicateField name => "duplicate field `" ++ name ++ "`"

/-- One step from a value into a part of it. -/
inductive Segment where
  | key (name : String)
  | index (i : Nat)
  | unread
  deriving DecidableEq

abbrev Path := List Segment

/-- Steps after the first: keys take a dot before them, indexes do not. -/
def Path.rest : Path → String
  | [] => ""
  | .key name :: path => "." ++ name ++ rest path
  | .index i :: path => "[" ++ toString i ++ "]" ++ rest path
  | .unread :: path => ".?" ++ rest path

def Path.text : Path → String
  | [] => "."
  | .key name :: path => name ++ rest path
  | .index i :: path => "[" ++ toString i ++ "]" ++ rest path
  | .unread :: path => "?" ++ rest path

/-- Line from one; column in bytes since the line began. -/
structure Position where
  line : Nat
  column : Nat
  deriving DecidableEq

/-- A document that could not be read: where in the document, what, and where in the text if it was text. -/
structure DecodeError where
  path : Path
  problem : Problem
  position : Option Position

def DecodeError.message (e : DecodeError) : String :=
  match e.position with
  | none => e.problem.message
  | some p => e.problem.message ++ " at line " ++ toString p.line ++ " column " ++ toString p.column

def DecodeError.shown (e : DecodeError) : String :=
  "at JSON path " ++ e.path.text ++ " → " ++ e.message

def DecodeError.under (s : Segment) (e : DecodeError) : DecodeError := { e with path := s :: e.path }

end Autodoc.Json
