import Quorum.Net.Multiaddr
import Quorum.Network.Error

/-!
# Sockets of a host

A host has its loopback addresses and nothing else: a socket can be bound on one of
them or on all at once, if no other socket is in the way. Streams go over version 4
only.
-/

namespace Quorum

structure Socket where
  address : IpAddress
  port : Nat
  deriving DecidableEq, Repr

namespace IpAddress

def loopback : IpAddress := .v4 [127, 0, 0, 1]

def isLoopback : IpAddress → Bool
  | .v4 (127 :: _) => true
  | _ => false

end IpAddress

namespace Socket

/-- Reads components from the last one on: a port, then an address; ids in between do not count. -/
def ofComponents? : Option Nat → List Component → Option Socket
  | some port, .ip a :: _ => some ⟨a, port⟩
  | none, .number .tcp port :: rest => ofComponents? (some port) rest
  | port, .peer _ :: rest => ofComponents? port rest
  | _, _ => none

/-- The socket that an address ends in. -/
def ofMultiaddr? (a : Multiaddr) : Option Socket := ofComponents? none a.components.reverse

/-- The address of a socket. -/
def toMultiaddr (s : Socket) : Multiaddr := ⟨[.ip s.address, .number .tcp s.port]⟩

/-- Where a bound socket can be reached. -/
def reachable (s : Socket) : Socket :=
  if s.address = .unspecified then { s with address := .loopback } else s

/-- Whether the host has the address to bind a socket there. -/
def isBindable (s : Socket) : Bool := s.address.isLoopback || s.address = .unspecified

/-- Whether one of two sockets is in the way of the other. -/
def clashes (s t : Socket) : Bool :=
  s.port == t.port &&
    (s.address = t.address || s.address = .unspecified || t.address = .unspecified)

/-- Whether a socket bound at `s` takes connections to `t`. -/
def accepts (s t : Socket) : Bool :=
  s.port == t.port && (s.address = t.address || s.address = .unspecified)

/-- Ports that the host gives away, from the first one on. -/
def firstFreePort : Nat := 49152

/-- The socket with a port of its own in place of none: the first one that is free. -/
def withPort (taken : List Socket) (s : Socket) : Socket :=
  if s.port = 0 then
    let ports := (List.range (taken.length + 1)).map (firstFreePort + ·)
    let free := ports.find? fun p => !taken.any fun t => t.port == p
    { s with port := free.getD firstFreePort }
  else s

/-- Binds a socket. -/
def bind? (taken : List Socket) (s : Socket) : Option Socket :=
  let s := s.withPort taken
  if s.isBindable && !taken.any s.clashes then some s else none

/-- Binds the socket that an address ends in. -/
def listen (taken : List Socket) (a : Multiaddr) : Except NetworkError Socket :=
  match ofMultiaddr? a with
  | none => .error (.transport ("Multiaddr is not supported: " ++ a.text))
  | some s =>
    match s.bind? taken with
    | some s => .ok s
    | none => .error (.transport "")

end Socket

end Quorum
