import OracleDuty.Json.Number
import OracleDuty.Bytes
/-!
Reading JSON text. `Json.read?` takes exactly one document, with blanks around its tokens.
-/
namespace OracleDuty.Json

def isBlank (c : Char) : Bool := c == ' ' || c == '\n' || c == '\t' || c == '\r'

def skipBlank (cs : List Char) : List Char := cs.dropWhile isBlank

inductive Piece where
  | char (c : Char)
  | unit (n : Nat)

def unitOf? (a b c d : Char) : Option Nat := do
  let a ← Hex.value? a
  let b ← Hex.value? b
  let c ← Hex.value? c
  let d ← Hex.value? d
  return ((a * 16 + b) * 16 + c) * 16 + d

def escaped? : Char → Option Char
  | '"' => some '"'
  | '\\' => some '\\'
  | '/' => some '/'
  | 'b' => some '\x08'
  | 'f' => some '\x0c'
  | 'n' => some '\n'
  | 'r' => some '\r'
  | 't' => some '\t'
  | _ => none

def pieces? : List Char → Option (List Piece × List Char)
  | [] => none
  | '"' :: rest => some ([], rest)
  | '\\' :: 'u' :: a :: b :: c :: d :: rest => do
    let n ← unitOf? a b c d
    let (ps, after) ← pieces? rest
    return (.unit n :: ps, after)
  | '\\' :: e :: rest => do
    let c ← escaped? e
    let (ps, after) ← pieces? rest
    return (.char c :: ps, after)
  | c :: rest =>
    if c < ' ' then none
    else do
      let (ps, after) ← pieces? rest
      return (.char c :: ps, after)

def isHighSurrogate (n : Nat) : Bool := 0xD800 ≤ n && n ≤ 0xDBFF

def isLowSurrogate (n : Nat) : Bool := 0xDC00 ≤ n && n ≤ 0xDFFF

/-- The characters that pieces spell; surrogates must come in pairs. -/
def join? : List Piece → Option (List Char)
  | [] => some []
  | .char c :: rest => (join? rest).map (c :: ·)
  | .unit h :: .unit l :: rest =>
    if isHighSurrogate h then
      if isLowSurrogate l then
        (join? rest).map (Char.ofNat (0x10000 + (h - 0xD800) * 0x400 + (l - 0xDC00)) :: ·)
      else none
    else if isLowSurrogate h then none
    else (join? (.unit l :: rest)).map (Char.ofNat h :: ·)
  | .unit n :: rest =>
    if isHighSurrogate n || isLowSurrogate n then none
    else (join? rest).map (Char.ofNat n :: ·)

def text? (cs : List Char) : Option (Option String × List Char) :=
  (pieces? cs).map fun (ps, rest) => ((join? ps).map String.ofList, rest)

def digits (cs : List Char) : List Char × List Char :=
  (cs.takeWhile Char.isDigit, cs.dropWhile Char.isDigit)

def integral? (cs : List Char) : Option (List Char × List Char) :=
  match cs with
  | '0' :: rest => some (['0'], rest)
  | cs => if (digits cs).1.isEmpty then none else some (digits cs)

def fraction? (cs : List Char) : Option (List Char × List Char) :=
  match cs with
  | '.' :: rest => if (digits rest).1.isEmpty then none else some (digits rest)
  | cs => some ([], cs)

def exponent? (cs : List Char) : Option ((Bool × List Char) × List Char) :=
  let signed (negative : Bool) (rest : List Char) :=
    if (digits rest).1.isEmpty then none else some ((negative, (digits rest).1), (digits rest).2)
  let marked : List Char → Option ((Bool × List Char) × List Char)
    | '-' :: rest => signed true rest
    | '+' :: rest => signed false rest
    | rest => signed false rest
  match cs with
  | 'e' :: rest => marked rest
  | 'E' :: rest => marked rest
  | cs => some ((false, []), cs)

def number? (cs : List Char) : Option (Json × List Char) := do
  let (negative, cs) := match cs with
    | '-' :: rest => (true, rest)
    | cs => (false, cs)
  let (integral, cs) ← integral? cs
  let (fraction, cs) ← fraction? cs
  let ((exponentNegative, exponent), cs) ← exponent? cs
  return (Lexeme.toJson ⟨negative, integral, fraction, exponentNegative, exponent⟩, cs)

def ofEntries (entries : List (Option String × Json)) : Json :=
  match entries.mapM fun (k, j) => k.map (·, j) with
  | some entries => .object entries
  | none => .malformed

mutual

/-- A document, which may follow blanks, and what follows it. The first argument bounds the depth of
the recursion. -/
def document? : Nat → List Char → Option (Json × List Char)
  | 0, _ => none
  | fuel + 1, cs =>
    match skipBlank cs with
    | '{' :: rest =>
      match skipBlank rest with
      | '}' :: rest => some (.object [], rest)
      | rest => (entries? fuel rest).map fun (es, rest) => (ofEntries es, rest)
    | '[' :: rest =>
      match skipBlank rest with
      | ']' :: rest => some (.array [], rest)
      | rest => (items? fuel rest).map fun (js, rest) => (.array js, rest)
    | '"' :: rest => (text? rest).map fun (s, rest) => (s.elim .malformed .string, rest)
    | 't' :: 'r' :: 'u' :: 'e' :: rest => some (.bool true, rest)
    | 'f' :: 'a' :: 'l' :: 's' :: 'e' :: rest => some (.bool false, rest)
    | 'n' :: 'u' :: 'l' :: 'l' :: rest => some (.null, rest)
    | cs => number? cs

def items? : Nat → List Char → Option (List Json × List Char)
  | 0, _ => none
  | fuel + 1, cs => do
    let (j, rest) ← document? fuel cs
    match skipBlank rest with
    | ',' :: rest =>
      let (js, rest) ← items? fuel rest
      return (j :: js, rest)
    | ']' :: rest => return ([j], rest)
    | _ => none

def entries? : Nat → List Char → Option (List (Option String × Json) × List Char)
  | 0, _ => none
  | fuel + 1, cs =>
    match skipBlank cs with
    | '"' :: rest => do
      let (key, rest) ← text? rest
      match skipBlank rest with
      | ':' :: rest =>
        let (j, rest) ← document? fuel rest
        match skipBlank rest with
        | ',' :: rest =>
          let (es, rest) ← entries? fuel rest
          return ((key, j) :: es, rest)
        | '}' :: rest => return ([(key, j)], rest)
        | _ => none
      | _ => none
    | _ => none

end

def ofChars? (cs : List Char) : Option Json :=
  match document? (cs.length + 1) cs with
  | some (j, rest) => if (skipBlank rest).isEmpty then some j else none
  | none => none

def read? (s : String) : Option Json := ofChars? s.toList

end OracleDuty.Json
