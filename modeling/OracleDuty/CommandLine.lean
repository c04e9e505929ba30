import OracleDuty.Decimal.Binary64
import OracleDuty.OrderedMap
import OracleDuty.Params
import OracleDuty.Url.Reader
/-!
The command line: one command, `run`, whose options may also be given by variables of the environment.

An option takes one value, which follows it or is attached by `=`. What is given on the command line wins
over the variable, and the variable over the default.
-/
namespace OracleDuty.CommandLine

inductive Fault where
  | noCommand
  | help
  | version
  | unknownCommand
  | unknownArgument
  | missingOption
  | repeatedOption
  | invalidValue
  | rejectedValue
deriving DecidableEq

def Fault.isRequest : Fault → Bool
  | help => true
  | version => true
  | _ => false

inductive Kind where
  | text
  | path
  | treeMode
  | url
  | float
  | number
  | positive
deriving DecidableEq

def Kind.check (k : Kind) (value : String) : Except Fault Unit :=
  let reads (ok : Bool) : Except Fault Unit := if ok then .ok () else .error .rejectedValue
  match k with
  | text => .ok ()
  | path => if value.isEmpty then .error .invalidValue else .ok ()
  | treeMode => if (TreeMode.ofName? value).isSome then .ok () else .error .invalidValue
  | url => reads (Url.ofText? value).isSome
  | float => reads (Decimal.float? value).isSome
  | number => reads (Decimal.uint64? value).isSome
  | positive => reads ((Decimal.uint64? value).any (0 < ·))

inductive Absence where
  | refused
  | allowed
  | default (value : String)
deriving DecidableEq

structure Spec where
  name : String
  environmentName : String
  kind : Kind
  absence : Absence
deriving DecidableEq

def specs : List Spec := [
  ⟨"ethereum-rpc-url", "WATCHTOWER_ETHEREUM_RPC_URL", .url, .refused⟩,
  ⟨"ethereum-private-key", "WATCHTOWER_ETHEREUM_PRIVATE_KEY", .text, .refused⟩,
  ⟨"storage-contract-address", "WATCHTOWER_STORAGE_CONTRACT_ADDRESS", .text, .refused⟩,
  ⟨"beacon-url", "WATCHTOWER_BEACON_URL", .url, .refused⟩,
  ⟨"network", "WATCHTOWER_NETWORK", .text, .default "mainnet"⟩,
  ⟨"rewards-dir", "WATCHTOWER_REWARDS_DIR", .path, .default "rewards"⟩,
  ⟨"rewards-tree-mode", "WATCHTOWER_REWARDS_TREE_MODE", .treeMode, .default "download"⟩,
  ⟨"rewards-generator-url", "WATCHTOWER_REWARDS_GENERATOR_URL", .url, .refused⟩,
  ⟨"web3-storage-url", "WATCHTOWER_WEB3_STORAGE_URL", .url, .default "https://api.web3.storage"⟩,
  ⟨"web3-storage-api-token", "WATCHTOWER_WEB3_STORAGE_API_TOKEN", .text, .allowed⟩,
  ⟨"max-fee-gwei", "WATCHTOWER_MAX_FEE_GWEI", .float, .allowed⟩,
  ⟨"max-priority-fee-gwei", "WATCHTOWER_MAX_PRIORITY_FEE_GWEI", .float, .allowed⟩,
  ⟨"twap-pool-address", "WATCHTOWER_TWAP_POOL_ADDRESS", .text, .allowed⟩,
  ⟨"optimism-messenger-address", "WATCHTOWER_OPTIMISM_MESSENGER_ADDRESS", .text, .allowed⟩,
  ⟨"polygon-messenger-address", "WATCHTOWER_POLYGON_MESSENGER_ADDRESS", .text, .allowed⟩,
  ⟨"arbitrum-messenger-address", "WATCHTOWER_ARBITRUM_MESSENGER_ADDRESS", .text, .allowed⟩,
  ⟨"zksync-era-messenger-address", "WATCHTOWER_ZKSYNC_ERA_MESSENGER_ADDRESS", .text, .allowed⟩,
  ⟨"base-messenger-address", "WATCHTOWER_BASE_MESSENGER_ADDRESS", .text, .allowed⟩,
  ⟨"poll-interval-seconds", "WATCHTOWER_POLL_INTERVAL_SECONDS", .positive, .default "12"⟩,
  ⟨"max-snapshot-walkback", "WATCHTOWER_MAX_SNAPSHOT_WALKBACK", .number, .allowed⟩,
  ⟨"shutdown-timeout-seconds", "WATCHTOWER_SHUTDOWN_TIMEOUT_SECONDS", .number, .default "60"⟩,
  ⟨"otel-service-name", "WATCHTOWER_OTEL_SERVICE_NAME", .text, .default "watchtower"⟩,
  ⟨"otel-collector-endpoint", "WATCHTOWER_OTEL_COLLECTOR_ENDPOINT", .url, .allowed⟩]

def spec? (name : String) : Option Spec := specs.find? fun s => s.name == name

abbrev Values := OrderedMap String String

def give (values : Values) (s : Spec) (value : String) : Except Fault Values :=
  if (values.get? s.name).isSome then .error .repeatedOption
  else (s.kind.check value).map fun _ => values.insert s.name value

inductive Token where
  | endOfOptions
  | long (name : String) (value : Option String)
  | short (letters : List Char)
  | value (text : String)

/-- The form of an argument. A single dash is a value. -/
def token (arg : String) : Token :=
  match arg.toList with
  | ['-', '-'] => .endOfOptions
  | '-' :: '-' :: rest =>
    match rest.span (· != '=') with
    | (name, _ :: value) => .long (String.ofList name) (some (String.ofList value))
    | (name, []) => .long (String.ofList name) none
  | '-' :: c :: rest => .short (c :: rest)
  | _ => .value arg

def inquiry? : Token → Option Fault
  | .long "help" none => some .help
  | .long "version" none => some .version
  | .short ('h' :: _) => some .help
  | .short ('V' :: _) => some .version
  | _ => none

def valueMissing : List String → Fault
  | [] => .invalidValue
  | next :: rest =>
    match token next with
    | .endOfOptions => if rest.isEmpty then .invalidValue else .unknownArgument
    | t =>
      let known := match t with
        | .long name _ => (spec? name).isSome
        | _ => false
      if known || (inquiry? t).isSome then .invalidValue else .unknownArgument

def options (values : Values) : List String → Except Fault Values
  | [] => .ok values
  | arg :: rest =>
    let t := token arg
    match inquiry? t with
    | some fault => .error fault
    | none =>
      match t with
      | .endOfOptions => if rest.isEmpty then .ok values else .error .unknownArgument
      | .long name value =>
        match spec? name, value with
        | none, _ => .error .unknownArgument
        | some s, some v => do options (← give values s v) rest
        | some s, none =>
          match rest with
          | [] => .error (valueMissing [])
          | v :: others =>
            match token v with
            | .value v => do options (← give values s v) others
            | _ => .error (valueMissing (v :: others))
      | _ => .error .unknownArgument

def complete (environment : String → Option String) (values : Values) (s : Spec) :
    Except Fault Values :=
  if (values.get? s.name).isSome then .ok values
  else match environment s.environmentName, s.absence with
    | some v, _ => give values s v
    | none, .default v => .ok (values.insert s.name v)
    | none, _ => .ok values

def isComplete (values : Values) : Bool :=
  specs.all fun s => s.absence != .refused || (values.get? s.name).isSome

def runValues (environment : String → Option String) (args : List String) :
    Except Fault Values := do
  let values ← options .empty args
  let values ← specs.foldlM (complete environment) values
  if isComplete values then .ok values else .error .missingOption

def helpOn : List String → Fault
  | [] => .help
  | ["run"] => .help
  | ["help"] => .help
  | _ => .unknownCommand

def values (environment : String → Option String) : List String → Except Fault Values
  | [] => .error .noCommand
  | arg :: rest =>
    let t := token arg
    match t with
    | .value "run" => runValues environment rest
    | .value "help" => .error (helpOn rest)
    | .value _ => .error .unknownCommand
    | .endOfOptions =>
      match rest with
      | [] => .error .noCommand
      | "run" :: _ => .error .unknownArgument
      | "help" :: _ => .error .unknownArgument
      | _ => .error .unknownCommand
    | t => .error (if let some .help := inquiry? t then .help else .unknownArgument)

/-! ### Usage -/

def Absence.note : Absence → String
  | refused => "required"
  | allowed => "optional"
  | default value => "default: " ++ value

def usage : String :=
  let lines := specs.map fun s => s!"  --{s.name} <VALUE>  [env: {s.environmentName}] [{s.absence.note}]"
  "\n".intercalate ("Usage: watchtower run [OPTIONS]" :: "" :: lines)

/-! ### Typed values -/

structure Options where
  rpcUrl : Url
  privateKey : String
  storageAddress : String
  beaconUrl : Url
  network : String
  directory : String
  treeMode : TreeMode
  generatorUrl : Url
  publisherUrl : Url
  publisherToken : Option String
  maxFeeGwei : Option Float
  maxPriorityFeeGwei : Option Float
  poolAddress : Option String
  messengerAddress : Relay.Target → Option String
  pollSeconds : UInt64
  maxWalkback : Option UInt64
  shutdownSeconds : UInt64
  serviceName : Option String
  collector : Option Url

def messengerOption : Relay.Target → String
  | .optimism => "optimism-messenger-address"
  | .polygon => "polygon-messenger-address"
  | .arbitrum => "arbitrum-messenger-address"
  | .zkSyncEra => "zksync-era-messenger-address"
  | .base => "base-messenger-address"

def Options.ofValues? (values : Values) : Option Options := do
  let url (name : String) : Option Url := (values.get? name).bind Url.ofText?
  let number (name : String) : Option UInt64 := (values.get? name).bind Decimal.uint64?
  return {
    rpcUrl := ← url "ethereum-rpc-url"
    privateKey := ← values.get? "ethereum-private-key"
    storageAddress := ← values.get? "storage-contract-address"
    beaconUrl := ← url "beacon-url"
    network := ← values.get? "network"
    directory := ← values.get? "rewards-dir"
    treeMode := ← (values.get? "rewards-tree-mode").bind TreeMode.ofName?
    generatorUrl := ← url "rewards-generator-url"
    publisherUrl := ← url "web3-storage-url"
    publisherToken := values.get? "web3-storage-api-token"
    maxFeeGwei := (values.get? "max-fee-gwei").bind Decimal.float?
    maxPriorityFeeGwei := (values.get? "max-priority-fee-gwei").bind Decimal.float?
    poolAddress := values.get? "twap-pool-address"
    messengerAddress := fun t => values.get? (messengerOption t)
    pollSeconds := ← number "poll-interval-seconds"
    maxWalkback := number "max-snapshot-walkback"
    shutdownSeconds := ← number "shutdown-timeout-seconds"
    serviceName := values.get? "otel-service-name"
    collector := url "otel-collector-endpoint" }

def read (environment : String → Option String) (args : List String) : Except Fault Options := do
  match Options.ofValues? (← values environment args) with
  | some options => .ok options
  | none => .error .rejectedValue

end OracleDuty.CommandLine
