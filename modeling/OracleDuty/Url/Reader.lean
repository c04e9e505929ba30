import OracleDuty.Decimal
import OracleDuty.Url.Host
/-!
Reading locators. Characters that may not stand for themselves are written by their bytes, dots among the
segments of a path are resolved, and the scheme's own port is left out.
-/
namespace OracleDuty.Url

def isControl (c : Char) : Bool := c.toNat ≤ 0x1F || 0x7E < c.toNat

def escapedInFragment (c : Char) : Bool := isControl c || " \"<>\x60".contains c

def escapedInPath (c : Char) : Bool := escapedInFragment c || "#?\x7b\x7d".contains c

def escapedInUserInfo (c : Char) : Bool := escapedInPath c || "/:;=@[\\]^|".contains c

def escapedInQuery (special : Bool) (c : Char) : Bool :=
  isControl c || " \"#<>".contains c || (special && c == Char.ofNat 39)

def upperDigit (n : Nat) : Char := (Hex.digit n).toUpper

def escape (escaped : Char → Bool) (cs : List Char) : String :=
  String.ofList (cs.flatMap fun c =>
    if escaped c then
      (Bytes.ofString (String.singleton c)).flatMap fun b =>
        ['%', upperDigit (b.toNat / 16), upperDigit (b.toNat % 16)]
    else [c])

def afterMark (mark : Char) : List Char → Option (List Char)
  | c :: rest => if c == mark then some rest else none
  | [] => none

def scheme? (cs : List Char) : Option (String × List Char) :=
  let (name, rest) := splitAtAny (· == ':') cs
  match name, rest with
  | first :: others, _ :: rest =>
    if first.isAlpha && others.all fun c => c.isAlphanum || "+-.".contains c then
      some (String.ofList (name.map Char.toLower), rest)
    else none
  | _, _ => none

def isDot (segment : String) : Bool := [".", "%2e"].contains (segment.map Char.toLower)

def isDoubleDot (segment : String) : Bool :=
  ["..", ".%2e", "%2e.", "%2e%2e"].contains (segment.map Char.toLower)

/-- Resolves dots; `above` holds the segments read so far, the last one first. A dot at the end leaves an
empty segment. -/
def resolveDots (above : List String) : List String → List String
  | [] => above.reverse
  | segment :: rest =>
    if isDoubleDot segment then
      resolveDots (if rest.isEmpty then "" :: above.tail else above.tail) rest
    else if isDot segment then resolveDots (if rest.isEmpty then "" :: above else above) rest
    else resolveDots (segment :: above) rest

def segmentsOf (special : Bool) (cs : List Char) : List String :=
  resolveDots [] ((splitOn (fun c => c == '/' || (special && c == '\\')) cs.tail).map
    (escape escapedInPath))

def splitPort (cs : List Char) : List Char × Option (List Char) :=
  let (tail, front) := splitAtAny (fun c => c == ':' || c == ']') cs.reverse
  match front with
  | ':' :: host => (host.reverse, some tail.reverse)
  | _ => (cs, none)

/-- A port written in digits; the scheme's own counts as none. -/
def portOf? (scheme : String) (digits : List Char) : Option (Option Nat) :=
  (Decimal.ofDigits? digits).bind fun p =>
    if p < 65536 then some (if defaultPort scheme == some p then none else some p) else none

def userInfo? : List Char → Option String
  | _ :: user =>
    let (name, password) := splitAtAny (· == ':') user.reverse
    let name := escape escapedInUserInfo name
    let password := escape escapedInUserInfo password.tail
    if name.isEmpty && password.isEmpty then none
    else some (if password.isEmpty then name else name ++ ":" ++ password)
  | [] => none

/-- The port in what may stand behind the host; no digits are no port. -/
def portIn? (scheme : String) : Option (List Char) → Option (Option Nat)
  | none => some none
  | some [] => some none
  | some digits => portOf? scheme digits

def authority? (scheme : String) (cs : List Char) : Option Authority := do
  let (hostRev, userRev) := splitAtAny (· == '@') cs.reverse
  let (host, portText) := splitPort hostRev.reverse
  let port ← portIn? scheme portText
  let host ←
    if scheme = "file" ∧ host = [] then some ""
    else if isSpecial scheme then domain? host
    else opaqueHost? host
  return ⟨userInfo? userRev, host, port⟩

def hierarchy? (scheme : String) (cs : List Char) : Option (Option Authority × Path) := do
  let special := isSpecial scheme
  let isSlash (c : Char) : Bool := c == '/' || (special && c == '\\')
  let located (cs : List Char) : Option (Option Authority × Path) := do
    let (name, path) := splitAtAny isSlash cs
    let authority ← authority? scheme name
    let path := if path.isEmpty && !special then [] else segmentsOf special path
    return (some authority, .segments path)
  if special && scheme != "file" then located (cs.dropWhile isSlash)
  else match cs with
    | a :: b :: rest =>
      if isSlash a && isSlash b then located rest
      else if isSlash a || scheme = "file" then
        return (if scheme = "file" then some ⟨none, "", none⟩ else none,
          .segments (segmentsOf special (if isSlash a then cs else '/' :: cs)))
      else return (none, .plain (escape isControl cs))
    | _ =>
      if scheme = "file" then return (some ⟨none, "", none⟩, .segments (segmentsOf special ('/' :: cs.dropWhile isSlash)))
      else if cs.any isSlash then return (none, .segments [""])
      else return (none, .plain (escape isControl cs))

def ofText? (s : String) : Option Url := do
  let isEdge (c : Char) : Bool := c.toNat ≤ 0x20
  let cs := ((s.toList.dropWhile isEdge).reverse.dropWhile isEdge).reverse
  let cs := cs.filter fun c => !(c == '\t' || c == '\n' || c == '\r')
  let (scheme, rest) ← scheme? cs
  let (front, fragment) := splitAtAny (· == '#') rest
  let (front, query) := splitAtAny (· == '?') front
  let (authority, path) ← hierarchy? scheme front
  return {
    scheme, authority, path
    query := (afterMark '?' query).map (escape (escapedInQuery (isSpecial scheme)))
    fragment := (afterMark '#' fragment).map (escape escapedInFragment) }

end OracleDuty.Url
