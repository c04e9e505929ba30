import OracleDuty.Http.Status
import OracleDuty.Json.Reader
import OracleDuty.Url.Reader
/-!
HTTP requests and responses as the clients of web services use them.
-/
namespace OracleDuty.Http

inductive Method where
  | get
  | post
deriving DecidableEq

def Method.name : Method → String
  | get => "GET"
  | post => "POST"

/-- A request. The names of headers are in lower case. -/
structure Request where
  method : Method
  url : Url
  headers : List (String × String)
  body : Bytes
deriving DecidableEq

def isHeaderText (s : String) : Bool :=
  s.toList.all fun c => c == '\t' || (0x20 ≤ c.toNat && c.toNat != 0x7F)

def Request.isSendable (r : Request) : Bool :=
  r.url.isHttp && r.headers.all fun h => isHeaderText h.2

structure Response where
  status : Status
  body : Bytes
deriving DecidableEq

namespace Response

def json? (r : Response) : Option Json := (Bytes.text? r.body).bind Json.read?

def text (r : Response) : String :=
  match (Bytes.text? r.body).map String.toList with
  | some ('\ufeff' :: rest) => String.ofList rest
  | some cs => String.ofList cs
  | none => ""

end Response

inductive Failure where
  | timedOut
  | broken (reason : String)
deriving DecidableEq

def Failure.message : Failure → String
  | timedOut => "request timed out"
  | broken reason => reason

end OracleDuty.Http
