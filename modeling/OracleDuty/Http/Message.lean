import OracleDuty.Http
/-!
Requests and responses as the bytes of a connection that is closed after one exchange.
-/
namespace OracleDuty.Http

def lineEnd : Bytes := [13, 10]

def Request.ownHeaders (r : Request) : List (String × String) :=
  let host := (r.url.authority.map fun a => ({ a with userInfo := none } : Url.Authority).text).getD ""
  let length := if r.body.isEmpty then [] else [("content-length", toString r.body.length)]
  ("host", host) :: ("accept", "*/*") :: ("connection", "close") :: length

def Request.bytes (r : Request) : Bytes :=
  let first := r.method.name ++ " " ++ r.url.target ++ " HTTP/1.1"
  let headers := (r.ownHeaders ++ r.headers).map fun h => h.1 ++ ": " ++ h.2
  (first :: headers).flatMap (fun line => Bytes.ofString line ++ lineEnd) ++ lineEnd ++ r.body

/-! ### Responses -/

def line? : Bytes → Option (Bytes × Bytes)
  | [] => none
  | 13 :: 10 :: rest => some ([], rest)
  | b :: rest => (line? rest).map fun (line, rest) => (b :: line, rest)

/-- What follows a line is shorter than the bytes that the line was taken from. -/
theorem length_of_line? {bs line rest : Bytes} (h : line? bs = some (line, rest)) :
    rest.length < bs.length := by
  fun_induction line? bs generalizing line with
  | case1 => simp at h
  | case2 tail =>
    obtain ⟨rfl, rfl⟩ := by simpa using h
    simp only [List.length_cons]; omega
  | case3 b tail _ ih =>
    obtain ⟨⟨l, r⟩, hl, he⟩ := Option.map_eq_some_iff.1 h
    obtain ⟨rfl, rfl⟩ := by simpa using he
    have := ih hl
    simp only [List.length_cons]; omega

def lines? (bs : Bytes) : Option (List Bytes × Bytes) :=
  match _h : line? bs with
  | none => none
  | some ([], rest) => some ([], rest)
  | some (line, rest) => (lines? rest).map fun (lines, rest) => (line :: lines, rest)
termination_by bs.length
decreasing_by exact length_of_line? _h

def statusOf? (line : String) : Option Status :=
  match (line.split (· == ' ')).toList.map (·.toString) with
  | version :: code :: _ => if version.startsWith "HTTP/1." then code.toNat? else none
  | _ => none

def headerOf (line : String) : String × String :=
  let (name, value) := line.toList.span (· != ':')
  ((String.ofList name).map Char.toLower, (String.ofList (value.drop 1)).trimAscii.toString)

def chunkSize (line : Bytes) : Option Nat :=
  let digits := line.map fun b => Hex.value? (Char.ofNat b.toNat)
  match digits.takeWhile Option.isSome with
  | [] => none
  | ds => some (ds.foldl (fun k d => 16 * k + d.getD 0) 0)

/-- A body that is sent in chunks, each after a line with its size; a chunk of no bytes ends it. -/
def chunked? (bs : Bytes) : Option Bytes :=
  match _h : line? bs with
  | none => none
  | some (line, rest) =>
    match chunkSize line with
    | none => none
    | some 0 => some []
    | some (k + 1) =>
      if rest.length < k + 3 then none
      else (chunked? (rest.drop (k + 3))).map (rest.take (k + 1) ++ ·)
termination_by bs.length
decreasing_by
  have := length_of_line? _h
  simp only [List.length_drop]; omega

def bodyOf? (headers : List (String × String)) (bs : Bytes) : Option Bytes :=
  if headers.lookup "transfer-encoding" = some "chunked" then chunked? bs
  else match (headers.lookup "content-length").bind String.toNat? with
    | some size => if bs.length < size then none else some (bs.take size)
    | none => some bs

def Response.ofBytes? (bs : Bytes) : Option Response := do
  let (first :: lines, rest) ← lines? bs | none
  let status ← (Bytes.text? first).bind statusOf?
  let headers := lines.filterMap fun line => (Bytes.text? line).map headerOf
  if status = 204 ∨ status = 304 then return ⟨status, []⟩
  else return ⟨status, ← bodyOf? headers rest⟩

end OracleDuty.Http
