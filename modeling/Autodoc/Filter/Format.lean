import Autodoc.Filter.Datum
import Autodoc.Filter.Arithmetic
import Autodoc.Text.Base64
import Autodoc.Text.Lossy
import Autodoc.Text.Quoted

namespace Autodoc.Filter

namespace Datum

/-- A text as it is, anything else as JSON. -/
def asText : Datum → String
  | .text s => s
  | d => d.shown

end Datum

namespace Format

def escapeWith (escape : Char → Option String) (s : String) : String :=
  String.join (s.toList.map fun c => (escape c).getD (String.singleton c))

def html : Char → Option String
  | '<' => some "&lt;"
  | '>' => some "&gt;"
  | '&' => some "&amp;"
  | '\'' => some "&#39;"
  | '"' => some "&quot;"
  | _ => none

def tabbed : Char → Option String
  | '\\' => some "\\\\"
  | '\t' => some "\\t"
  | '\r' => some "\\r"
  | '\n' => some "\\n"
  | _ => none

/-- Letters, digits and four marks stand for themselves; the bytes of all else are written in hexadecimal. -/
def uriByte (b : UInt8) : List Char :=
  let c := Char.ofNat b.toNat
  if b < 128 && (c.isAlphanum || "-_.~".toList.contains c) then [c]
  else '%' :: (Decimal.padLeft 2 (Text.hex b.toNat)).map Char.toUpper

def shellQuoted (s : String) : String :=
  "'" ++ escapeWith (fun c => if c = '\'' then some "'\\''" else none) s ++ "'"

def cell (textual : String → String) : Datum → Except Datum String
  | .null => .ok ""
  | .text s => .ok (textual s)
  | .list vs => .error (.text ((Datum.list vs).shown ++ " cannot be a table cell"))
  | .object ms => .error (.text ((Datum.object ms).shown ++ " cannot be a table cell"))
  | d => .ok d.shown

def row (separator : String) (textual : String → String) : Datum → Except Datum Datum
  | .list vs => (vs.mapM (cell textual)).map fun cells => .text (separator.intercalate cells)
  | d => .error (d.cannotUse "array")

def shellWord : Datum → Except Datum String
  | .text s => .ok (shellQuoted s)
  | .list vs => .error (.text ((Datum.list vs).shown ++ " cannot be a shell word"))
  | .object ms => .error (.text ((Datum.object ms).shown ++ " cannot be a shell word"))
  | d => .ok d.shown

def csvCell (s : String) : String :=
  "\"" ++ escapeWith (fun c => if c = '"' then some "\"\"" else none) s ++ "\""

def all : List (String × (Datum → Except Datum Datum)) :=
  [("text", fun d => .ok (.text d.asText)),
    ("json", fun d => .ok (.text d.shown)),
    ("html", fun d => .ok (.text (escapeWith html d.asText))),
    ("uri", fun d => .ok (.text (String.ofList (d.asText.toUTF8.data.toList.flatMap uriByte)))),
    ("csv", row "," csvCell),
    ("tsv", row "\t" (escapeWith tabbed)),
    ("sh", fun d =>
      match d with
      | .list vs => (vs.mapM shellWord).map fun ws => .text (" ".intercalate ws)
      | d => (shellWord d).map .text),
    ("base64", fun d =>
      .ok (.text (String.ofList (Text.Base64.encode d.asText.toUTF8.data.toList)))),
    ("base64d", fun d =>
      match Text.Base64.decode? d.asText.toList with
      | some bytes => .ok (.text (Text.lossy ⟨bytes.toArray⟩))
      | none => .error (.text (d.shown ++ " is not base 64")))]

def find? (name : String) : Option (Datum → Except Datum Datum) := all.lookup name

end Format

end Autodoc.Filter
