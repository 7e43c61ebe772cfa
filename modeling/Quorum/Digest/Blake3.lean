import Quorum.Text.Ascii

/-!
# The BLAKE3 digest

The input is cut into chunks of 1024 bytes and these into blocks of 64 bytes.
`compress` mixes a block into a chaining value of eight words. The chaining values
of the chunks are combined in a binary tree whose left subtrees are the largest
powers of two; the digest is the first half of the root's compression.
-/

namespace Quorum.Blake3

/-- Eight words that are carried from block to block. -/
abbrev Chain := Vector UInt32 8

/-- The sixteen words of a block, or of the state of a compression. -/
abbrev Block := Vector UInt32 16

def start : Chain :=
  #v[0x6A09E667, 0xBB67AE85, 0x3C6EF372, 0xA54FF53A, 0x510E527F, 0x9B05688C, 0x1F83D9AB, 0x5BE0CD19]

def chunkStart : UInt32 := 1
def chunkEnd : UInt32 := 2
def parent : UInt32 := 4
def root : UInt32 := 8

def rotateRight (w : UInt32) (n : UInt32) : UInt32 := (w >>> n) ||| (w <<< (32 - n))

/-- Mixes two message words into four words of the state. -/
def mix (v : Block) (a b c d : Fin 16) (x y : UInt32) : Block :=
  let va := v[a] + v[b] + x
  let vd := rotateRight (v[d] ^^^ va) 16
  let vc := v[c] + vd
  let vb := rotateRight (v[b] ^^^ vc) 12
  let va := va + vb + y
  let vd := rotateRight (vd ^^^ va) 8
  let vc := vc + vd
  let vb := rotateRight (vb ^^^ vc) 7
  (((v.set a va).set b vb).set c vc).set d vd

/-- Mixes the columns and then the diagonals. -/
def mixAll (v m : Block) : Block :=
  let v := mix v 0 4 8 12 m[0] m[1]
  let v := mix v 1 5 9 13 m[2] m[3]
  let v := mix v 2 6 10 14 m[4] m[5]
  let v := mix v 3 7 11 15 m[6] m[7]
  let v := mix v 0 5 10 15 m[8] m[9]
  let v := mix v 1 6 11 12 m[10] m[11]
  let v := mix v 2 7 8 13 m[12] m[13]
  mix v 3 4 9 14 m[14] m[15]

/-- The message words as the next round takes them. -/
def permute (m : Block) : Block :=
  #v[m[2], m[6], m[3], m[10], m[7], m[0], m[4], m[13], m[1], m[11], m[12], m[5], m[9], m[14], m[15],
    m[8]]

def rounds : Nat → Block → Block → Block
  | 0, v, _ => v
  | n + 1, v, m => rounds n (mixAll v m) (permute m)

/-- A compression that has yet to be done: what goes into it but for the root's flag. -/
structure Node where
  chain : Chain
  block : Block
  counter : Nat
  length : Nat
  flags : UInt32

/-- The chaining value that a compression leaves. -/
def Node.compress (n : Node) (extra : UInt32) : Chain :=
  let h := n.chain
  let v : Block := #v[h[0], h[1], h[2], h[3], h[4], h[5], h[6], h[7], start[0], start[1], start[2],
    start[3], UInt32.ofNat n.counter, UInt32.ofNat (n.counter >>> 32), UInt32.ofNat n.length,
    n.flags ||| extra]
  let v := rounds 7 v n.block
  #v[v[0] ^^^ v[8], v[1] ^^^ v[9], v[2] ^^^ v[10], v[3] ^^^ v[11], v[4] ^^^ v[12], v[5] ^^^ v[13],
    v[6] ^^^ v[14], v[7] ^^^ v[15]]

/-- Four bytes as a word, the first one lowest; missing bytes are zero. -/
def word : Bytes → UInt32 × Bytes
  | a :: b :: c :: d :: rest =>
    (a.toUInt32 ||| (b.toUInt32 <<< 8) ||| (c.toUInt32 <<< 16) ||| (d.toUInt32 <<< 24), rest)
  | [a, b, c] => (a.toUInt32 ||| (b.toUInt32 <<< 8) ||| (c.toUInt32 <<< 16), [])
  | [a, b] => (a.toUInt32 ||| (b.toUInt32 <<< 8), [])
  | [a] => (a.toUInt32, [])
  | [] => (0, [])

def words : Nat → Bytes → List UInt32
  | 0, _ => []
  | n + 1, s => (word s).1 :: words n (word s).2

/-- The first 64 bytes as a block. -/
def blockOf (s : Bytes) : Block := Vector.ofFn fun i => (words 16 s).toArray.getD i 0

/-- The last compression of a chunk; the earlier ones are done on the way. -/
def chunkNode (counter : Nat) : Nat → Chain → UInt32 → Bytes → Node
  | 0, chain, first, s => ⟨chain, blockOf s, counter, min s.length 64, first ||| chunkEnd⟩
  | fuel + 1, chain, first, s =>
    match s.drop 64 with
    | [] => ⟨chain, blockOf s, counter, s.length, first ||| chunkEnd⟩
    | more =>
      chunkNode counter fuel (Node.compress ⟨chain, blockOf s, counter, 64, first⟩ 0) 0 more

def parentNode (left right : Chain) : Node :=
  ⟨start, left ++ right, 0, 64, parent⟩

/-- The last compression of each chunk, in order. -/
def chunkNodes : Nat → Nat → Bytes → List Node
  | 0, _, _ => []
  | fuel + 1, counter, s =>
    let node := chunkNode counter 16 start chunkStart (s.take 1024)
    match s.drop 1024 with
    | [] => [node]
    | more => node :: chunkNodes fuel (counter + 1) more

/-- The largest power of two below `n`, for `n` above one. -/
def leftSize (n : Nat) : Nat := 1 <<< (n - 1).log2

/-- Combines the chunks into the root of their tree. -/
def treeNode : Nat → List Node → Node
  | _, [] => ⟨start, Vector.replicate 16 0, 0, 0, chunkStart ||| chunkEnd⟩
  | _, [n] => n
  | 0, n :: _ => n
  | fuel + 1, nodes =>
    let k := leftSize nodes.length
    parentNode ((treeNode fuel (nodes.take k)).compress 0)
      ((treeNode fuel (nodes.drop k)).compress 0)

def wordBytes (w : UInt32) : Bytes :=
  [w.toUInt8, (w >>> 8).toUInt8, (w >>> 16).toUInt8, (w >>> 24).toUInt8]

/-- The 32 bytes of the digest. -/
def digest (s : Bytes) : Bytes :=
  let nodes := chunkNodes (s.length / 1024 + 1) 0 s
  ((treeNode nodes.length nodes).compress root).toList.flatMap wordBytes

/-- The digest in lower-case hexadecimal. -/
def hex (s : Bytes) : String := String.ofList ((digest s).flatMap hexByte)

end Quorum.Blake3
