import Autodoc.Text.UnseenTable

namespace Autodoc.Text

def hex (n : Nat) : List Char := Nat.toDigits 16 n

def quoteChar (c : Char) : List Char :=
  match c with
  | '"' => ['\\', '"']
  | '\\' => ['\\', '\\']
  | '\n' => ['\\', 'n']
  | '\r' => ['\\', 'r']
  | '\t' => ['\\', 't']
  | '\x00' => ['\\', '0']
  | c =>
    if c.toNat < 0x20 || (0x7F ≤ c.toNat && isUnseen c.toNat) then
      ['\\', 'u', '{'] ++ hex c.toNat ++ ['}']
    else [c]

def quoted (s : String) : String :=
  String.ofList ('"' :: (s.toList.flatMap quoteChar ++ ['"']))

end Autodoc.Text
