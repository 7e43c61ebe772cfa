import Quorum.Json.Value
import Quorum.Net.Multiaddr

/-!
# The configuration of a node

Six sections, the first two of which a file has to give. `render` writes a
configuration as JSON, the sections and their fields in the order in which they are
declared here; `validate` names the first field with a value no node can work with.
-/

namespace Quorum

namespace Config

/-- How a node meets other nodes. Times are in seconds. -/
structure Peering where
  /-- Dialed at the start, in this order. -/
  bootstrap : List Multiaddr
  listen : Multiaddr
  maxKnownPeers : Nat
  /-- Peers not seen for longer are forgotten. -/
  peerTtl : Nat
  dialTimeout : Nat
  requestTimeout : Nat
  enableMdns : Bool
  deriving DecidableEq, Repr

structure Voting where
  minPeers : Nat
  threshold : Double
  /-- When a broadcast stops waiting, in seconds. -/
  deadline : Nat
  deriving DecidableEq, Repr

/-- Where RPC endpoints come from. -/
structure Endpoints where
  defaultUrl : String
  providerUrl : String
  registryAddress : Option String
  maxAttempts : Nat
  cooldown : Nat
  deriving DecidableEq, Repr

structure Storage where
  ipfsUrl : Option String
  deriving DecidableEq, Repr

structure Inference where
  backendUrl : Option String
  deriving DecidableEq, Repr

structure RateLimit where
  maxRequests : Nat
  window : Nat
  deriving DecidableEq, Repr

structure Api where
  port : Nat
  /-- Whether requests are refused while too few peers are known for a vote. -/
  enforceQuorum : Bool
  rateLimit : RateLimit
  deriving DecidableEq, Repr

def Endpoints.default : Endpoints :=
  ⟨"http://localhost:8545", "http://localhost:8545", none, 3, 30⟩

def Storage.default : Storage := ⟨none⟩

def Inference.default : Inference := ⟨none⟩

def RateLimit.default : RateLimit := ⟨100, 900⟩

def Api.default : Api := ⟨3000, false, .default⟩

/-- Any interface, any port. -/
def Peering.defaultListen : Multiaddr := ⟨[.ip .unspecified, .number .tcp 0]⟩

end Config

structure Config where
  peering : Config.Peering
  voting : Config.Voting
  endpoints : Config.Endpoints
  storage : Config.Storage
  inference : Config.Inference
  api : Config.Api
  deriving DecidableEq, Repr

/-- Why a configuration was not loaded. -/
inductive ConfigError where
  | read (path cause : String)
  | parse (cause : String)
  | invalid (field reason : String)
  deriving DecidableEq, Repr

def ConfigError.message : ConfigError → String
  | read path cause => "failed to read config file " ++ path ++ ": " ++ cause
  | parse cause => "failed to parse config: " ++ cause
  | invalid field reason => "invalid config value for " ++ field ++ ": " ++ reason

namespace Config

/-! ## Validation -/

/-- Whether a share of the votes makes sense as a threshold. -/
def isThreshold (x : Double) : Bool := Double.zero.lt x && x.le (Double.ofNat 1)

/-- The first field that no node can work with. -/
def validate (c : Config) : Except ConfigError Unit :=
  if c.voting.minPeers = 0 then .error (.invalid "consensus.min_peers" "must be at least 1")
  else if !isThreshold c.voting.threshold then
    .error (.invalid "consensus.consensus_threshold"
      (Decimal.plain.text c.voting.threshold ++ " is outside (0, 1]"))
  else if c.endpoints.maxAttempts = 0 then
    .error (.invalid "rpc.max_failover_attempts" "must be at least 1")
  else if c.peering.maxKnownPeers = 0 then
    .error (.invalid "p2p.max_known_peers" "must be at least 1")
  else if c.api.rateLimit.maxRequests = 0 || c.api.rateLimit.window = 0 then
    .error (.invalid "api.rate_limit" "max_requests and window_secs must be non-zero")
  else .ok ()

/-! ## Text -/

def textOf (s : String) : String := (Json.string s).render

def natOf (n : Nat) : String := (Json.integer n).render

def truthOf (b : Bool) : String := (Json.bool b).render

def optionalOf (s : Option String) : String := ((s.map Json.string).getD .null).render

/-- A number; infinities have no text. -/
def doubleOf (x : Double) : String := if x.isFinite then (Json.double x).render else "null"

def Peering.render (p : Peering) : String :=
  Json.renderMembers
    [("bootstrap_nodes", (Json.array (p.bootstrap.map fun a => .string a.text)).render),
     ("listen_addr", textOf p.listen.text),
     ("max_known_peers", natOf p.maxKnownPeers),
     ("peer_ttl_secs", natOf p.peerTtl),
     ("dial_timeout_secs", natOf p.dialTimeout),
     ("request_timeout_secs", natOf p.requestTimeout),
     ("enable_mdns", truthOf p.enableMdns)]

def Voting.render (v : Voting) : String :=
  Json.renderMembers
    [("min_peers", natOf v.minPeers), ("consensus_threshold", doubleOf v.threshold),
     ("broadcast_deadline_secs", natOf v.deadline)]

def Endpoints.render (e : Endpoints) : String :=
  Json.renderMembers
    [("default_url", textOf e.defaultUrl), ("provider_url", textOf e.providerUrl),
     ("registry_address", optionalOf e.registryAddress),
     ("max_failover_attempts", natOf e.maxAttempts), ("failover_cooldown_secs", natOf e.cooldown)]

def Api.render (a : Api) : String :=
  Json.renderMembers
    [("port", natOf a.port), ("enforce_peer_quorum", truthOf a.enforceQuorum),
     ("rate_limit", Json.renderMembers
       [("max_requests", natOf a.rateLimit.maxRequests),
        ("window_secs", natOf a.rateLimit.window)])]

def render (c : Config) : String :=
  Json.renderMembers
    [("p2p", c.peering.render), ("consensus", c.voting.render), ("rpc", c.endpoints.render),
     ("storage", Json.renderMembers [("ipfs_api_url", optionalOf c.storage.ipfsUrl)]),
     ("inference", Json.renderMembers [("backend_url", optionalOf c.inference.backendUrl)]),
     ("api", c.api.render)]

end Config

end Quorum
