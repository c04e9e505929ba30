import OracleDuty.Json.Number
import OracleDuty.Bytes
/-!
Writing JSON text: compact, without blanks, escaping only what must be escaped.
-/
namespace OracleDuty.Json

/-- A character inside quotes. Only the quote, the backslash and control characters are escaped. -/
def escape (c : Char) : List Char :=
  match c with
  | '"' => ['\\', '"']
  | '\\' => ['\\', '\\']
  | '\x08' => ['\\', 'b']
  | '\x0c' => ['\\', 'f']
  | '\n' => ['\\', 'n']
  | '\r' => ['\\', 'r']
  | '\t' => ['\\', 't']
  | c =>
    if c < ' ' then
      ['\\', 'u', '0', '0', Hex.digit (c.toNat / 16), Hex.digit (c.toNat % 16)]
    else [c]

def quote (s : String) : List Char := '"' :: s.toList.flatMap escape ++ ['"']

def integerChars : Int → List Char
  | .ofNat n => Nat.toDigits 10 n
  | .negSucc n => '-' :: Nat.toDigits 10 (n + 1)

mutual

/-- The compact text of a document. A part that denotes no value is written as `null`. -/
def chars : Json → List Char
  | null => ['n', 'u', 'l', 'l']
  | bool true => ['t', 'r', 'u', 'e']
  | bool false => ['f', 'a', 'l', 's', 'e']
  | integer i => integerChars i
  | float x => if x.isFinite then (floatText x).toList else ['n', 'u', 'l', 'l']
  | string s => quote s
  | array [] => ['[', ']']
  | array (j :: rest) => '[' :: chars j ++ itemChars rest
  | object [] => ['{', '}']
  | object ((k, j) :: rest) => '{' :: quote k ++ ':' :: chars j ++ entryChars rest
  | malformed => ['n', 'u', 'l', 'l']

def itemChars : List Json → List Char
  | [] => [']']
  | j :: rest => ',' :: chars j ++ itemChars rest

def entryChars : List (String × Json) → List Char
  | [] => ['}']
  | (k, j) :: rest => ',' :: quote k ++ ':' :: chars j ++ entryChars rest

end

def render (j : Json) : String := String.ofList j.chars

end OracleDuty.Json
