import Autodoc.Json.Value
import Autodoc.Decimal.Layout
import Autodoc.Text.Quoted

namespace Autodoc.Json

/-- Control characters are escaped, by letter where one exists; all else but `"` and `\` stands for itself. -/
def escapeChar (c : Char) : List Char :=
  match c with
  | '"' => ['\\', '"']
  | '\\' => ['\\', '\\']
  | '\x08' => ['\\', 'b']
  | '\x0c' => ['\\', 'f']
  | '\n' => ['\\', 'n']
  | '\r' => ['\\', 'r']
  | '\t' => ['\\', 't']
  | c =>
    if c.toNat < 0x20 then ['\\', 'u'] ++ Decimal.padLeft 4 (Text.hex c.toNat) else [c]

def printText (s : String) : List Char := '"' :: (s.toList.flatMap escapeChar ++ ['"'])

def printInt (n : Int) : List Char :=
  if n < 0 then '-' :: Decimal.decimal n.natAbs else Decimal.decimal n.natAbs

def printNumber : Number → List Char
  | .int n => printInt n
  | .float x => (Decimal.Layout.json.render x).toList

mutual

def printValue : Value → List Char
  | .null => "null".toList
  | .bool true => "true".toList
  | .bool false => "false".toList
  | .number n => printNumber n
  | .text s => printText s
  | .list [] => ['[', ']']
  | .list (v :: vs) => '[' :: (printValue v ++ printItems vs)
  | .object [] => ['{', '}']
  | .object ((k, v) :: ms) => '{' :: (printText k ++ ':' :: (printValue v ++ printMembers ms))

def printItems : List Value → List Char
  | [] => [']']
  | v :: vs => ',' :: (printValue v ++ printItems vs)

def printMembers : List (String × Value) → List Char
  | [] => ['}']
  | (k, v) :: ms => ',' :: (printText k ++ ':' :: (printValue v ++ printMembers ms))

end

def Value.toText (v : Value) : String := String.ofList (printValue v)

end Autodoc.Json
