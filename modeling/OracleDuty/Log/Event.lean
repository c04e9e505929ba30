import OracleDuty.Text.Quoted
import OracleDuty.OrderedMap
/-!
Log events, the spans they happen in, and the parts of the program they come from.
-/
namespace OracleDuty.Log

inductive Level where
  | trace
  | debug
  | info
  | warn
  | error
deriving DecidableEq, Inhabited

namespace Level

def rank : Level → Nat
  | trace => 0
  | debug => 1
  | info => 2
  | warn => 3
  | error => 4

def name : Level → String
  | trace => "TRACE"
  | debug => "DEBUG"
  | info => "INFO"
  | warn => "WARN"
  | error => "ERROR"

end Level

/-- The value of a field. A `shown` value is a text that was already laid out for the reader. -/
inductive Value where
  | unsigned (n : UInt64)
  | signed (i : Int64)
  | flag (b : Bool)
  | text (s : String)
  | shown (s : String)
deriving DecidableEq

def Value.laidOut : Value → String
  | unsigned n => toString n
  | signed i => toString i
  | flag b => if b then "true" else "false"
  | text s => Text.quoted s
  | shown s => s

def Value.spanText : Value → String
  | text s => s
  | v => Text.unquoted v.laidOut

def messageField : String := "message"

structure Event where
  level : Level
  target : String
  message : Value
  fields : List (String × Value)
deriving DecidableEq

def Event.told (e : Event) : List (String × Value) := (messageField, e.message) :: e.fields

abbrev SpanFields := OrderedMap String String

/-- Records fields on a span; a field recorded again takes the new value. -/
def SpanFields.record (s : SpanFields) (fields : List (String × Value)) : SpanFields :=
  fields.foldl (fun s f => s.insert f.1 f.2.spanText) s

def SpanFields.ofFields (fields : List (String × Value)) : SpanFields :=
  SpanFields.record .empty fields

inductive Source where
  | service
  | shutdown
  | metrics
  | controller
  | state
  | snapshot
  | lane
  | relay
  | prices
  | rewards
  | store
  | cache
  | generation
  | publication
  | execution
  | beacon
deriving DecidableEq

def Source.target : Source → String
  | service => "watchtower"
  | shutdown => "watchtower::utils::signal_handler"
  | metrics => "watchtower::utils::instrument"
  | controller => "watchtower::worker::controller"
  | state => "watchtower::core::state"
  | snapshot => "watchtower::worker::snapshot"
  | lane => "watchtower::worker::single_flight"
  | relay => "watchtower::worker::tasks::relay_prices"
  | prices => "watchtower::worker::tasks::submit_prices"
  | rewards => "watchtower::worker::tasks::submit_rewards"
  | store => "watchtower::core::artifacts"
  | cache => "watchtower::core::artifacts::cache"
  | generation => "watchtower::core::client::generator::http"
  | publication => "watchtower::core::client::distribution::web3_storage"
  | execution => "watchtower_ethereum_client"
  | beacon => "watchtower_beacon_client"

def event (source : Source) (level : Level) (message : String)
    (fields : List (String × Value)) : Event := ⟨level, source.target, .shown message, fields⟩

end OracleDuty.Log
