import OracleDuty.Text.Shown
/-!
Texts in quotes as they appear in log fields and messages, and the removal of quotes around a text.
-/
namespace OracleDuty.Text

def quotedChar (c : Char) : List Char :=
  match c with
  | '\x00' => ['\\', '0']
  | '\t' => ['\\', 't']
  | '\n' => ['\\', 'n']
  | '\r' => ['\\', 'r']
  | '"' => ['\\', '"']
  | '\\' => ['\\', '\\']
  | c =>
    if isShown c then [c]
    else ['\\', 'u', '\x7b'] ++ Nat.toDigits 16 c.toNat ++ ['\x7d']

def quoted (s : String) : String :=
  String.ofList ('"' :: s.toList.flatMap quotedChar ++ ['"'])

def unquoted (s : String) : String :=
  let front := s.toList.dropWhile (· == '"')
  String.ofList (front.reverse.dropWhile (· == '"')).reverse

end OracleDuty.Text
