import Quorum.Config.Reader
import Quorum.Text.Utf8

/-!
# Files and the environment

A configuration is read from a file, then patched from environment variables, then
validated (`load`). Every variable decides one field; a port that is no number of 16
bits leaves the field as it is.
-/

namespace Quorum

/-- Environment variables that are set to a text. One that is set to anything else counts as not
set. -/
structure Environment where
  bindings : List (String × String)

namespace Environment

def get? (e : Environment) (name : String) : Option String := e.bindings.lookup name

end Environment

namespace Config

/-- A port: a decimal number, maybe behind a plus sign. -/
def port? (s : String) : Option Nat := Multiaddr.number? UInt16.size s

/-- The configuration as the environment changes it. -/
def override (e : Environment) (c : Config) : Config :=
  { c with
    endpoints := { c.endpoints with
      defaultUrl := (e.get? "DEFAULT_RPC_URL").getD c.endpoints.defaultUrl
      providerUrl := (e.get? "RPC_PROVIDER_URL").getD c.endpoints.providerUrl
      registryAddress := (e.get? "SOVEREIGN_RPC_ADDRESS").or c.endpoints.registryAddress }
    storage := ⟨(e.get? "IPFS_API_URL").or c.storage.ipfsUrl⟩
    inference := ⟨(e.get? "INFERENCE_BACKEND_URL").or c.inference.backendUrl⟩
    api := { c.api with port := ((e.get? "PORT").bind port?).getD c.api.port } }

/-- What reading a file gave: its bytes, or why there are none. -/
abbrev File := Except String Bytes

/-- The text of a file. -/
def fileText (path : String) (file : File) : Except ConfigError String :=
  match file with
  | .error cause => .error (.read path cause)
  | .ok bytes =>
    match Utf8.decode? bytes with
    | some text => .ok text
    | none => .error (.read path "stream did not contain valid UTF-8")

/-- `complaint` is what a reader of YAML says of a text that is no configuration. -/
def load (complaint : String → String) (path : String) (file : File) (e : Environment) :
    Except ConfigError Config :=
  match fileText path file with
  | .error err => .error err
  | .ok text =>
    match ofYaml? text with
    | none => .error (.parse (complaint text))
    | some c =>
      let c := c.override e
      match c.validate with
      | .error err => .error err
      | .ok () => .ok c

end Config

end Quorum
