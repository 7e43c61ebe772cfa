import Quorum.Message.Reader

/-!
# Messages on streams

A source hands out bytes in pieces and then ends or fails; a sink takes some bytes
with every write and may fail, also when it is closed. A message is read to the end
of the source, but never more than one byte beyond the limit; it is written whole
and then the sink is closed.
-/

namespace Quorum

/-- Why a message was not read or written. -/
inductive StreamError where
  /-- The stream broke. -/
  | reset
  | closeFailed
  | tooLarge
  | invalid (message : String)
  deriving DecidableEq, Repr

def StreamError.message : StreamError → String
  | reset => "stream reset"
  | closeFailed => "close failed"
  | tooLarge => "inference message too large"
  | invalid message => message

/-- Bytes that arrive piece by piece; after the last piece the source ends or fails. -/
structure Source where
  pieces : List Bytes
  fails : Bool

namespace Source

/-- Cuts bytes into pieces of at most `size`. -/
def cut (size : Nat) : Nat → Bytes → List Bytes
  | 0, _ => []
  | fuel + 1, s => if s.isEmpty then [] else s.take size :: cut size fuel (s.drop size)

/-- A source that hands out `bytes` in pieces of at most `size` and fails once `failAt` of them
are delivered. -/
def ofBytes (bytes : Bytes) (size : Option Nat) (failAt : Option Nat) : Source :=
  let sent := match failAt with
    | some f => bytes.take f
    | none => bytes
  let fails := match failAt with
    | some f => decide (f ≤ bytes.length)
    | none => false
  ⟨match size with
    | some k => cut (max k 1) sent.length sent
    | none => if sent.isEmpty then [] else [sent], fails⟩

/-- Takes pieces until `room` bytes are taken or the source ends. -/
def takeUpTo (fails : Bool) : Nat → List Bytes → List Bytes → Except StreamError (List Bytes)
  | 0, acc, _ => .ok acc
  | _ + 1, acc, [] => if fails then .error .reset else .ok acc
  | room + 1, acc, p :: rest =>
    takeUpTo fails (room + 1 - p.length) (p.take (room + 1) :: acc) rest
termination_by _ _ pieces => pieces.length

/-- All bytes of a source, if they are no more than `limit`. -/
def readAll (limit : Nat) (s : Source) : Except StreamError Bytes :=
  match takeUpTo s.fails (limit + 1) [] s.pieces with
  | .error e => .error e
  | .ok taken =>
    let bytes := taken.reverse.flatten
    if limit < bytes.length then .error .tooLarge else .ok bytes

end Source

/-- Reads a message of at most `messageLimit` bytes. -/
def readMessage {α : Type} (read : Bytes → Except Json.Fault α) (s : Source) :
    Except StreamError α :=
  match s.readAll messageLimit with
  | .error e => .error e
  | .ok bytes =>
    match read bytes with
    | .ok m => .ok m
    | .error f => .error (.invalid (f.message bytes))

/-- Takes at most `size` bytes with a write, fails once it has taken `failAt`, and may fail to
close. -/
structure Sink where
  size : Option Nat
  failAt : Option Nat
  failClose : Bool

namespace Sink

/-- How many of `left` bytes a write takes after `taken` were; `none` when it fails. -/
def accept (k : Sink) (taken left : Nat) : Option Nat :=
  let room := match k.failAt with
    | some f => f - taken
    | none => left
  if room = 0 then none
  else some (min (min left room) (max (k.size.getD left) 1))

/-- Writes until nothing is left; the bytes taken come back in reverse. -/
def writeAll (k : Sink) : Nat → Nat → Bytes → Bytes → Bytes × Option StreamError
  | 0, _, acc, _ => (acc, none)
  | fuel + 1, taken, acc, left =>
    if left.isEmpty then (acc, none)
    else match k.accept taken left.length with
      | none => (acc, some .reset)
      | some n =>
        writeAll k fuel (taken + n) ((left.take n).reverse ++ acc) (left.drop n)

/-- Writes a message and closes the sink: what it has taken, and whether all went well. -/
def send (k : Sink) (message : String) : Bytes × Option StreamError :=
  let bytes := Utf8.encode message
  let (taken, error) := k.writeAll (bytes.length + 1) 0 [] bytes
  match error with
  | some e => (taken.reverse, some e)
  | none => (taken.reverse, if k.failClose then some .closeFailed else none)

end Sink

end Quorum
