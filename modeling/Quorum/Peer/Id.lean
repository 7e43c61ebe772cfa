import Quorum.Peer.Base58

/-!
# Peer ids

A peer is known by a digest with the kind of hash that made it: a SHA-256 digest
of its key or, for short keys, the key itself. The id's bytes are the code of the
kind, the length and the digest; its text is their base 58 form. Ids are ordered
by kind, then length, then digest.
-/

namespace Quorum

/-- How a digest was made. -/
inductive HashKind where
  | identity
  | sha256
  deriving DecidableEq, Repr

namespace HashKind

def code : HashKind → UInt8
  | identity => 0x00
  | sha256 => 0x12

def ofCode? (b : UInt8) : Option HashKind :=
  if b = 0x00 then some identity else if b = 0x12 then some sha256 else none

/-- The longest digest an id of this kind may have. -/
def maxLength : HashKind → Nat
  | identity => 42
  | sha256 => 64

end HashKind

/-- A peer's id. -/
structure PeerId where
  kind : HashKind
  digest : Bytes
  deriving DecidableEq, Repr

namespace PeerId

/-- The id of the peer with this key: the key itself behind a header that says what it is. -/
def ofKey (key : Bytes) : PeerId := ⟨.identity, 0x08 :: 0x01 :: 0x12 :: 0x20 :: key⟩

def toBytes (p : PeerId) : Bytes := p.kind.code :: UInt8.ofNat p.digest.length :: p.digest

def ofBytes? : Bytes → Option PeerId
  | code :: length :: digest => do
    let kind ← HashKind.ofCode? code
    if digest.length = length.toNat && length.toNat ≤ kind.maxLength then
      return ⟨kind, digest⟩
    else none
  | _ => none

def text (p : PeerId) : String := Base58.encode p.toBytes

def ofText? (s : String) : Option PeerId := (Base58.decode? s).bind ofBytes?

/-- Ids compare as these keys do. -/
def key (p : PeerId) : List Nat :=
  p.kind.code.toNat :: p.digest.length :: p.digest.map (·.toNat)

/-- Whether the second id does not come before the first one. -/
def le (p q : PeerId) : Bool := !q.key.lex p.key

end PeerId

end Quorum
