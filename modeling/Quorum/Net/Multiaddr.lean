import Quorum.Net.Ip
import Quorum.Net.Url
import Quorum.Peer.Id

/-!
# Addresses of peers

An address is a list of components, each a protocol with or without a value, from
the outside in: `/ip4/10.0.0.1/tcp/4001/p2p/<id>`. The text is read component by
component; a value is kept in its plain form, in which it is printed again.
-/

namespace Quorum

/-- Protocols whose value is a number, with the bound it must stay below. -/
inductive NumberProtocol where
  | tcp
  | udp
  | dccp
  | sctp
  | ipcidr
  | memory
  deriving DecidableEq, Repr

/-- Protocols whose value is any text. -/
inductive TextProtocol where
  | dns
  | dns4
  | dns6
  | dnsaddr
  | sni
  | unix
  | ip6zone
  deriving DecidableEq, Repr

/-- Protocols without a value. -/
inductive BareProtocol where
  | http
  | https
  | tls
  | noise
  | plaintextv2
  | quic
  | quicV1
  | webtransport
  | webrtc
  | webrtcDirect
  | p2pWebrtcDirect
  | p2pWebrtcStar
  | p2pWebsocketStar
  | p2pStardust
  | p2pCircuit
  | udt
  | utp
  deriving DecidableEq, Repr

/-- One step of an address. -/
inductive Component where
  | ip (a : IpAddress)
  | number (p : NumberProtocol) (n : Nat)
  | text (p : TextProtocol) (s : String)
  | bare (p : BareProtocol)
  | peer (id : PeerId)
  /-- A web socket at a path. -/
  | socket (secure : Bool) (path : String)
  | httpPath (path : String)
  /-- An onion service: its name in lower case, and a port. -/
  | onion (version : Nat) (name : String) (port : Nat)
  /-- A certificate's digest with the code of its hash. -/
  | certhash (multihash : Bytes)
  deriving DecidableEq, Repr

/-- The id that a component names. -/
def Component.peer? : Component → Option PeerId
  | .peer id => some id
  | _ => none

/-- The components of an address, outermost first. -/
structure Multiaddr where
  components : List Component
  deriving DecidableEq, Repr

namespace NumberProtocol

def all : List NumberProtocol := [tcp, udp, dccp, sctp, ipcidr, memory]

def name : NumberProtocol → String
  | tcp => "tcp"
  | udp => "udp"
  | dccp => "dccp"
  | sctp => "sctp"
  | ipcidr => "ipcidr"
  | memory => "memory"

def bound : NumberProtocol → Nat
  | ipcidr => UInt8.size
  | memory => UInt64.size
  | _ => UInt16.size

end NumberProtocol

namespace TextProtocol

def all : List TextProtocol := [dns, dns4, dns6, dnsaddr, sni, unix, ip6zone]

def name : TextProtocol → String
  | dns => "dns"
  | dns4 => "dns4"
  | dns6 => "dns6"
  | dnsaddr => "dnsaddr"
  | sni => "sni"
  | unix => "unix"
  | ip6zone => "ip6zone"

end TextProtocol

namespace BareProtocol

def all : List BareProtocol :=
  [http, https, tls, noise, plaintextv2, quic, quicV1, webtransport, webrtc, webrtcDirect,
   p2pWebrtcDirect, p2pWebrtcStar, p2pWebsocketStar, p2pStardust, p2pCircuit, udt, utp]

def name : BareProtocol → String
  | http => "http"
  | https => "https"
  | tls => "tls"
  | noise => "noise"
  | plaintextv2 => "plaintextv2"
  | quic => "quic"
  | quicV1 => "quic-v1"
  | webtransport => "webtransport"
  | webrtc => "webrtc"
  | webrtcDirect => "webrtc-direct"
  | p2pWebrtcDirect => "p2p-webrtc-direct"
  | p2pWebrtcStar => "p2p-webrtc-star"
  | p2pWebsocketStar => "p2p-websocket-star"
  | p2pStardust => "p2p-stardust"
  | p2pCircuit => "p2p-circuit"
  | udt => "udt"
  | utp => "utp"

end BareProtocol

namespace Multiaddr

/-- A decimal number below a bound; a plus sign and leading zeros are allowed. -/
def number? (bound : Nat) (s : String) : Option Nat :=
  let digits := match s.toList with
    | '+' :: rest => rest
    | cs => cs
  if digits.isEmpty || !digits.all IpAddress.isDecimal then none
  else
    let n := IpAddress.decimalValue digits
    if n < bound then some n else none

/-! ## Values in other alphabets -/

def base32Alphabet : List Char := "abcdefghijklmnopqrstuvwxyz234567".toList

def base64Alphabet : List Char :=
  "ABCDEFGHIJKLMNOPQRSTUVWXYZabcdefghijklmnopqrstuvwxyz0123456789-_".toList

/-- Digits of a power of two as bytes; the bits left over must be zero. -/
def bytesOfDigits (bits : Nat) (digits : List Nat) : Option Bytes :=
  let value := digits.foldl (fun n d => (n <<< bits) + d) 0
  let total := bits * digits.length
  let spare := total % 8
  if bits ≤ spare || value % (1 <<< spare) ≠ 0 then none
  else
    let n := value >>> spare
    some ((List.range (total / 8)).map fun i => UInt8.ofNat (n >>> (total - spare - 8 * (i + 1))))

def digitsIn (alphabet s : List Char) : Option (List Nat) :=
  s.mapM fun c => alphabet.findIdx? (· == c)

/-- Bytes written with a leading letter that names the alphabet. -/
def multibase? (s : String) : Option Bytes :=
  match s.toList with
  | 'u' :: rest => (digitsIn base64Alphabet rest).bind (bytesOfDigits 6)
  | 'b' :: rest => (digitsIn base32Alphabet rest).bind (bytesOfDigits 5)
  | 'f' :: rest => (digitsIn "0123456789abcdef".toList rest).bind (bytesOfDigits 4)
  | 'z' :: rest => Base58.decode? (String.ofList rest)
  | _ => none

def base64Text (bytes : Bytes) : String :=
  let value := bytes.foldl (fun n b => n * 256 + b.toNat) 0
  let total := 8 * bytes.length
  let count := (total + 5) / 6
  let padded := value <<< (6 * count - total)
  String.ofList ((List.range count).map fun i =>
    base64Alphabet.getD (padded >>> (6 * (count - 1 - i)) % 64) 'A')

/-- Whether bytes are a digest behind the code of its hash and its length. -/
def isMultihash : Bytes → Bool
  | code :: length :: digest =>
    code < 128 && length ≤ 64 && digest.length = length.toNat
  | _ => false

/-- The name and the port of an onion service. -/
def onion? (version letters : Nat) (s : String) : Option Component :=
  match IpAddress.splitOn ':' s.toList with
  | [name, port] => do
    let lower := name.map Char.toLower
    let n ← number? UInt16.size (String.ofList port)
    if lower.length = letters && (digitsIn base32Alphabet lower).isSome && 0 < n then
      return .onion version (String.ofList lower) n
    else none
  | _ => none

def percentDecode? (s : String) : Option String :=
  Utf8.decode? (Url.percentDecode (Utf8.encode s))

/-- Whether a byte of a path is written as an escape. -/
def isEscaped (b : UInt8) : Bool :=
  b < 0x20 || 0x7F ≤ b || " \"#<>?`\x7b\x7d/%".toList.any (·.toNat == b.toNat)

def percentEncode (s : String) : String :=
  String.ofList ((Utf8.encode s).flatMap fun b =>
    if isEscaped b then '%' :: (hexByte b).map Char.toUpper else [Char.ofNat b.toNat])

/-! ## Reading -/

/-- The component that takes the next part of the text as its value. -/
def valued? (name value : String) : Option Component :=
  match NumberProtocol.all.find? (·.name == name), TextProtocol.all.find? (·.name == name) with
  | some p, _ => (number? p.bound value).map (.number p)
  | none, some p => some (.text p value)
  | none, none =>
    if name == "ip4" then (IpAddress.v4? value.toList).map .ip
    else if name == "ip6" then (IpAddress.v6? value.toList).map .ip
    else if name == "p2p" || name == "ipfs" then (PeerId.ofText? value).map .peer
    else if name == "x-parity-ws" then (percentDecode? value).map (.socket false)
    else if name == "x-parity-wss" then (percentDecode? value).map (.socket true)
    else if name == "http-path" then (percentDecode? value).map .httpPath
    else if name == "onion" then onion? 2 16 value
    else if name == "onion3" then onion? 3 56 value
    else if name == "certhash" then
      (multibase? value).bind fun b => if isMultihash b then some (.certhash b) else none
    else none

/-- The component that a name alone stands for. -/
def bare? (name : String) : Option Component :=
  if name == "ws" then some (.socket false "/")
  else if name == "wss" then some (.socket true "/")
  else (BareProtocol.all.find? (·.name == name)).map .bare

def components? : List String → Option (List Component)
  | [] => some []
  | [name] => (bare? name).map ([·])
  | name :: value :: rest =>
    match bare? name with
    | some c => (components? (value :: rest)).map (c :: ·)
    | none => do return (← valued? name value) :: (← components? rest)

/-- Reads an address: nothing, or components with a slash in front of every part. -/
def ofText? (s : String) : Option Multiaddr :=
  match (IpAddress.splitOn '/' s.toList).map String.ofList with
  | "" :: parts => (components? parts).map Multiaddr.mk
  | _ => none

/-! ## Printing -/

def componentText : Component → String
  | .ip (.v4 os) => "/ip4/" ++ (IpAddress.v4 os).text
  | .ip (.v6 gs) => "/ip6/" ++ (IpAddress.v6 gs).text
  | .number p n => "/" ++ p.name ++ "/" ++ toString n
  | .text p s => "/" ++ p.name ++ "/" ++ s
  | .bare p => "/" ++ p.name
  | .peer id => "/p2p/" ++ id.text
  | .socket secure "/" => if secure then "/wss" else "/ws"
  | .socket secure path =>
    (if secure then "/x-parity-wss/" else "/x-parity-ws/") ++ percentEncode path
  | .httpPath path => "/http-path/" ++ percentEncode path
  | .onion 2 name port => "/onion/" ++ name ++ ":" ++ toString port
  | .onion _ name port => "/onion3/" ++ name ++ ":" ++ toString port
  | .certhash b => "/certhash/u" ++ base64Text b

def text (a : Multiaddr) : String := String.join (a.components.map componentText)

/-! ## The peers of an address -/

/-- The id that the first component with an id names. -/
def peer? (a : Multiaddr) : Option PeerId := a.components.findSome? Component.peer?

/-- The id at the end of an address, which whoever is found there must have. -/
def target? (a : Multiaddr) : Option PeerId := a.components.getLast?.bind Component.peer?

/-- The address with an id behind it, unless it ends in one already. -/
def withPeer (a : Multiaddr) (id : PeerId) : Multiaddr :=
  if a.target?.isSome then a else ⟨a.components ++ [.peer id]⟩

end Multiaddr

end Quorum
