/-!
# Log records

A record is a level, the part of the node that speaks, and a message.
-/

namespace Quorum

inductive Level where
  | error
  | warn
  | info
  | debug
  deriving DecidableEq, Repr

def Level.name : Level → String
  | error => "ERROR"
  | warn => "WARN"
  | info => "INFO"
  | debug => "DEBUG"

structure LogRecord where
  level : Level
  /-- The part of the node that speaks. -/
  target : String
  message : String
  deriving DecidableEq, Repr

namespace LogRecord

/-- Records of the peer manager. -/
def manager (level : Level) (message : String) : LogRecord :=
  ⟨level, "joynet_node::network::manager", message⟩

/-- Records of the start and the end of a node. -/
def node (level : Level) (message : String) : LogRecord := ⟨level, "joynet_node", message⟩

/-- Records of the network's loop. -/
def network (level : Level) (message : String) : LogRecord :=
  ⟨level, "joynet_node::network::transport", message⟩

/-- Records of the choice of an RPC endpoint. -/
def selector (level : Level) (message : String) : LogRecord :=
  ⟨level, "joynet_node::rpc::selector", message⟩

/-- Records of the errors that the API answers with. -/
def apiError (level : Level) (message : String) : LogRecord :=
  ⟨level, "joynet_node::api::errors", message⟩

/-- Records of the stages of a request. -/
def stage (level : Level) (message : String) : LogRecord :=
  ⟨level, "joynet_node::api::middleware", message⟩

/-- Records of the API's server. -/
def server (level : Level) (message : String) : LogRecord :=
  ⟨level, "joynet_node::api::server", message⟩

end LogRecord

end Quorum
