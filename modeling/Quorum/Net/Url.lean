import Quorum.Net.Domain
import Quorum.Net.Ip

/-!
# Absolute URLs

Whether a text is an absolute URL, and what is wrong with it if it is not. The
scheme decides how the rest is read: `http`, `https`, `ws`, `wss` and `ftp` take any
slashes of either direction and must name a host, `file` may leave it out, other
schemes have a host only behind two slashes and otherwise any text at all.
-/

namespace Quorum.Url

inductive Fault where
  | relative
  | emptyHost
  | badDomain
  | badPort
  | badIpv4
  | badIpv6
  | badCharacter
  deriving DecidableEq, Repr

def Fault.message : Fault → String
  | relative => "relative URL without a base"
  | emptyHost => "empty host"
  | badDomain => "invalid international domain name"
  | badPort => "invalid port number"
  | badIpv4 => "invalid IPv4 address"
  | badIpv6 => "invalid IPv6 address"
  | badCharacter => "invalid domain character"

/-- How the part behind the scheme is read. -/
inductive Kind where
  | special
  | file
  | other
  deriving DecidableEq

def kindOf (scheme : String) : Kind :=
  if ["http", "https", "ws", "wss", "ftp"].contains scheme then .special
  else if scheme == "file" then .file
  else .other

/-- Drops blanks and control characters at both ends, and tabs and line ends anywhere. -/
def trim (s : List Char) : List Char :=
  let front := s.dropWhile (·.toNat ≤ 0x20)
  let both := (front.reverse.dropWhile (·.toNat ≤ 0x20)).reverse
  both.filter fun c => !(c == '\t' || c == '\n' || c == '\r')

def isSchemeChar (c : Char) : Bool := c.isAlphanum || c == '+' || c == '-' || c == '.'

/-- The scheme in lower case and what follows its colon. -/
def scheme? (s : List Char) : Option (String × List Char) :=
  let name := s.takeWhile isSchemeChar
  match s.head?, s.drop name.length with
  | some c, ':' :: rest =>
    if c.isAlpha then some (String.ofList (name.map Char.toLower), rest) else none
  | _, _ => none

def isSlash (c : Char) : Bool := c == '/' || c == '\\'

/-- Whether a character ends the part that names user, host and port. -/
def endsAuthority (special : Bool) (c : Char) : Bool :=
  c == '/' || c == '?' || c == '#' || (special && c == '\\')

/-- Replaces percent escapes; a percent sign without two digits stays. -/
def percentDecode : Bytes → Bytes
  | 0x25 :: x :: y :: rest =>
    match Ascii.hexValue? x, Ascii.hexValue? y with
    | some h, some l => UInt8.ofNat (16 * h + l) :: percentDecode rest
    | _, _ => 0x25 :: percentDecode (x :: y :: rest)
  | b :: rest => b :: percentDecode rest
  | [] => []

/-- A number in an address: decimal, or octal or hexadecimal by its first characters. The inner
`none` is a number that is too large. -/
def addressNumber? (s : List Char) : Option (Option Nat) :=
  let (base, digits) := match s with
    | '0' :: x :: rest => if x == 'x' || x == 'X' then (16, rest) else (8, x :: rest)
    | s => (10, s)
  if s.isEmpty then none
  else if digits.isEmpty then some (some 0)
  else match digits.mapM IpAddress.hexCharValue? with
    | none => none
    | some ds =>
      if ds.any (base ≤ ·) then none
      else
        let n := ds.foldl (fun n d => base * n + d) 0
        some (if n < UInt32.size then some n else none)

/-- Whether the last label of a name makes it an address. -/
def endsInNumber (labels : List (List Char)) : Bool :=
  let last := match labels.reverse with
    | [] :: l :: _ => some l
    | [] :: [] => none
    | l :: _ => some l
    | [] => none
  match last with
  | none => false
  | some l => (!l.isEmpty && l.all IpAddress.isDecimal) || (addressNumber? l).isSome

/-- Whether labels are an address: at most four numbers, the last one filling what is left. -/
def isIpv4 (labels : List (List Char)) : Bool :=
  let parts := match labels.reverse with
    | [] :: rest => rest.reverse
    | _ => labels
  match parts.mapM fun p => (addressNumber? p).join with
  | none => false
  | some ns =>
    match ns.reverse with
    | [] => false
    | last :: front =>
      front.length ≤ 3 && last < UInt32.size >>> (8 * front.length) && front.all (· ≤ 255)

/-- Checks the text between brackets. -/
def checkIpv6 (s : List Char) : Except Fault Unit :=
  match s.reverse with
  | ']' :: inner => if (IpAddress.v6? inner.reverse).isSome then .ok () else .error .badIpv6
  | _ => .error .badIpv6

/-- Checks a host that is a domain name or an address. -/
def checkHost (s : List Char) : Except Fault Unit :=
  match s with
  | '[' :: rest => checkIpv6 rest
  | _ =>
    match Domain.normal? (percentDecode (Utf8.encode (String.ofList s))) with
    | none => .error .badDomain
    | some [] => .error .emptyHost
    | some name =>
      let labels := Domain.labels name
      if endsInNumber labels && !isIpv4 labels then .error .badIpv4 else .ok ()

/-- Checks a host that is any text. -/
def checkOpaqueHost (s : List Char) : Except Fault Unit :=
  match s with
  | '[' :: rest => checkIpv6 rest
  | _ =>
    if s.any fun c => c.toNat == 0 || " #/:<>?@[\\]^|".toList.contains c then
      .error .badCharacter
    else .ok ()

/-- The host in front of a port or a path; colons between brackets belong to it. -/
def splitHost (special : Bool) : Bool → List Char → List Char → List Char × List Char
  | _, acc, [] => (acc.reverse, [])
  | inside, acc, c :: rest =>
    if (c == ':' && !inside) || endsAuthority special c then (acc.reverse, c :: rest)
    else splitHost special (if c == '[' then true else if c == ']' then false else inside)
      (c :: acc) rest

/-- Checks the digits of a port. -/
def checkPort (n : Nat) : List Char → Except Fault Unit
  | [] => .ok ()
  | c :: rest =>
    if IpAddress.isDecimal c then
      let n := 10 * n + (c.toNat - 48)
      if 65535 < n then .error .badPort else checkPort n rest
    else if c == '/' || c == '\\' || c == '?' || c == '#' then .ok ()
    else .error .badPort

/-- What follows the user's name, and whether one was given. -/
def afterUser (special : Bool) (s : List Char) : Except Fault (Bool × List Char) :=
  let authority := s.takeWhile fun c => !endsAuthority special c
  if !authority.contains '@' then .ok (false, s)
  else
    let host := (authority.reverse.takeWhile (· != '@')).reverse
    let user := authority.length - host.length - 1
    let rest := s.drop (user + 1)
    if user = 0 then
      match rest with
      | c :: _ => if endsAuthority special c then .error .emptyHost else .ok (false, rest)
      | [] => .ok (false, [])
    else .ok (true, rest)

/-- Checks user, host and port. -/
def checkAuthority (special : Bool) (s : List Char) : Except Fault Unit := do
  let (named, s) ← afterUser special s
  let (host, rest) := splitHost special false [] s
  if host.isEmpty then
    if special || named || rest.head? == some ':' then throw .emptyHost
  else if special then checkHost host
  else checkOpaqueHost host
  match rest with
  | ':' :: port => checkPort 0 port
  | _ => return ()

def isDriveLetter : List Char → Bool
  | [a, b] => a.isAlpha && (b == ':' || b == '|')
  | _ => false

/-- Checks the host of a file, if it names one. -/
def checkFileHost (s : List Char) : Except Fault Unit :=
  let host := s.takeWhile fun c => !endsAuthority true c
  if host.isEmpty || isDriveLetter host then .ok () else checkHost host

/-- Checks that a text is an absolute URL. -/
def check (text : String) : Except Fault Unit :=
  match scheme? (trim text.toList) with
  | none => .error .relative
  | some (scheme, rest) =>
    match kindOf scheme with
    | .special => checkAuthority true (rest.dropWhile isSlash)
    | .file =>
      match rest with
      | a :: b :: host => if isSlash a && isSlash b then checkFileHost host else .ok ()
      | _ => .ok ()
    | .other =>
      match rest with
      | '/' :: '/' :: authority => checkAuthority false authority
      | _ => .ok ()

end Quorum.Url
