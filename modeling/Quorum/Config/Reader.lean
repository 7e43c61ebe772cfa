import Quorum.Config
import Quorum.Yaml.Typed

/-!
# Configurations in YAML

Every section is a record; fields with unknown names are ignored, fields that are
not there take their default, if they have one.
-/

namespace Quorum.Config

open Yaml

def address? (n : Yaml.Node) : Option Multiaddr := (Yaml.text? n).bind Multiaddr.ofText?

def addresses? (n : Yaml.Node) : Option (List Multiaddr) := (items? n).bind (·.mapM address?)

/-- Whole numbers that fit 64 bits. -/
def count? (n : Yaml.Node) : Option Nat := natural? UInt64.size n

def Peering.ofNode? (n : Yaml.Node) : Option Peering := do
  let fs ← fields? ["bootstrap_nodes", "listen_addr", "max_known_peers", "peer_ttl_secs",
    "dial_timeout_secs", "request_timeout_secs", "enable_mdns"] n
  return {
    bootstrap := ← field? fs "bootstrap_nodes" addresses? none
    listen := ← field? fs "listen_addr" address? (some defaultListen)
    maxKnownPeers := ← field? fs "max_known_peers" count? (some 256)
    peerTtl := ← field? fs "peer_ttl_secs" count? (some 3600)
    dialTimeout := ← field? fs "dial_timeout_secs" count? (some 10)
    requestTimeout := ← field? fs "request_timeout_secs" count? (some 30)
    enableMdns := ← field? fs "enable_mdns" truth? (some false) }

def Voting.ofNode? (n : Yaml.Node) : Option Voting := do
  let fs ← fields? ["min_peers", "consensus_threshold", "broadcast_deadline_secs"] n
  return {
    minPeers := ← field? fs "min_peers" count? none
    threshold := ← field? fs "consensus_threshold" double? none
    deadline := ← field? fs "broadcast_deadline_secs" count? (some 60) }

def Endpoints.ofNode? (n : Yaml.Node) : Option Endpoints := do
  let fs ← fields? ["default_url", "provider_url", "registry_address", "max_failover_attempts",
    "failover_cooldown_secs"] n
  return {
    defaultUrl := ← field? fs "default_url" Yaml.text? (some Endpoints.default.defaultUrl)
    providerUrl := ← field? fs "provider_url" Yaml.text? (some Endpoints.default.providerUrl)
    registryAddress := ← field? fs "registry_address" optionalText? (some none)
    maxAttempts := ← field? fs "max_failover_attempts" (natural? UInt32.size)
      (some Endpoints.default.maxAttempts)
    cooldown := ← field? fs "failover_cooldown_secs" count? (some Endpoints.default.cooldown) }

def Storage.ofNode? (n : Yaml.Node) : Option Storage := do
  let fs ← fields? ["ipfs_api_url"] n
  return ⟨← field? fs "ipfs_api_url" optionalText? (some none)⟩

def Inference.ofNode? (n : Yaml.Node) : Option Inference := do
  let fs ← fields? ["backend_url"] n
  return ⟨← field? fs "backend_url" optionalText? (some none)⟩

def RateLimit.ofNode? (n : Yaml.Node) : Option RateLimit := do
  let fs ← fields? ["max_requests", "window_secs"] n
  return {
    maxRequests := ← field? fs "max_requests" (natural? UInt32.size) none
    window := ← field? fs "window_secs" count? none }

def Api.ofNode? (n : Yaml.Node) : Option Api := do
  let fs ← fields? ["port", "enforce_peer_quorum", "rate_limit"] n
  return {
    port := ← field? fs "port" (natural? UInt16.size) (some Api.default.port)
    enforceQuorum := ← field? fs "enforce_peer_quorum" truth? (some Api.default.enforceQuorum)
    rateLimit := ← field? fs "rate_limit" RateLimit.ofNode? (some .default) }

def ofNode? (n : Yaml.Node) : Option Config := do
  let fs ← fields? ["p2p", "consensus", "rpc", "storage", "inference", "api"] n
  return {
    peering := ← field? fs "p2p" Peering.ofNode? none
    voting := ← field? fs "consensus" Voting.ofNode? none
    endpoints := ← field? fs "rpc" Endpoints.ofNode? (some .default)
    storage := ← field? fs "storage" Storage.ofNode? (some .default)
    inference := ← field? fs "inference" Inference.ofNode? (some .default)
    api := ← field? fs "api" Api.ofNode? (some .default) }

/-- Reads a configuration without looking at the environment. -/
def ofYaml? (text : String) : Option Config := (Node.ofText? text).bind ofNode?

end Quorum.Config
