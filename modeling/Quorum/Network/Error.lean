import Quorum.Peer.Id

/-!
# What goes wrong between peers
-/

namespace Quorum

inductive NetworkError where
  | transport (text : String)
  | dial (text : String)
  | dialTimeout (address : String)
  | requestFailed (peer : PeerId) (reason : String)
  | requestTimeout (peer : PeerId)
  | publish (text : String)
  /-- The node's network has been shut down. -/
  | closed
  deriving DecidableEq, Repr

def NetworkError.message : NetworkError → String
  | transport text => "Transport error: " ++ text
  | dial text => "Dial error: " ++ text
  | dialTimeout address => "Dial to " ++ address ++ " timed out"
  | requestFailed peer reason => "Request to " ++ peer.text ++ " failed: " ++ reason
  | requestTimeout peer => "Request to " ++ peer.text ++ " timed out"
  | publish text => "Publish error: " ++ text
  | closed => "Network task is not running"

end Quorum
