import Quorum.Digest.Blake3
import Quorum.Json.Reader

/-!
# The content store

Payloads by the digest of their canonical text. Storing a payload again changes
nothing, and a stored text is read back when it is asked for.
-/

namespace Quorum

/-- Why a payload was not stored. -/
inductive StoreError where
  | upload (text : String)
  | badResponse (text : String)
  | unwritable (text : String)
  deriving DecidableEq, Repr

def StoreError.message : StoreError → String
  | upload text => "upload failed: " ++ text
  | badResponse text => "unexpected storage response: " ++ text
  | unwritable text => "serialization error: " ++ text

/-- The stored texts by their hashes, each hash once. -/
structure Store where
  objects : List (String × Bytes)

namespace Store

def empty : Store := ⟨[]⟩

/-- The name under which a payload is stored. -/
def hashOf (v : Json) : String := "b3-" ++ Blake3.hex (Utf8.encode v.render)

def find? (s : Store) (hash : String) : Option Bytes := s.objects.lookup hash

/-- Stores a payload under its hash. -/
def upload (s : Store) (v : Json) : Store × String :=
  let hash := hashOf v
  let entry := (hash, Utf8.encode v.render)
  match s.find? hash with
  | some _ => (⟨s.objects.map fun o => if o.1 = hash then entry else o⟩, hash)
  | none => (⟨s.objects ++ [entry]⟩, hash)

/-- The payload stored under a hash. -/
def get? (s : Store) (hash : String) : Option Json :=
  (s.find? hash).bind fun bytes => (Json.read bytes).toOption

def size (s : Store) : Nat := s.objects.length

def isEmpty (s : Store) : Bool := s.objects.isEmpty

end Store

end Quorum
