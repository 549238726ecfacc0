import JobRegistry.Number.Power

/-!
# The BLAKE3 hash

The unkeyed hash with a digest of 32 bytes. A message is cut into chunks of 1024 bytes and each
chunk into blocks of 64 bytes, which are compressed one after another into a chaining value. The
chaining values of the chunks are the leaves of a binary tree whose left subtrees are full and as
large as possible; the root is compressed once more with a flag of its own.

What is to be compressed last is kept as a `Node`, so that the caller decides whether it is the
root.
-/

namespace JobRegistry.Blake3

/-- A chaining value. -/
abbrev Chain := Vector UInt32 8

/-- The words of a block, or the state of the compression. -/
abbrev Words := Vector UInt32 16

/-- The initial chaining value. -/
def start : Chain :=
  #v[0x6A09E667, 0xBB67AE85, 0x3C6EF372, 0xA54FF53A, 0x510E527F, 0x9B05688C, 0x1F83D9AB,
    0x5BE0CD19]

/-- Rotation to the right. -/
def rotate (x : UInt32) (n : UInt32) : UInt32 :=
  (x >>> n) ||| (x <<< (32 - n))

/-- Mixes two message words into four words of the state. -/
def mix (s : Words) (a b c d : Fin 16) (x y : UInt32) : Words :=
  let s := s.set a (s[a] + s[b] + x)
  let s := s.set d (rotate (s[d] ^^^ s[a]) 16)
  let s := s.set c (s[c] + s[d])
  let s := s.set b (rotate (s[b] ^^^ s[c]) 12)
  let s := s.set a (s[a] + s[b] + y)
  let s := s.set d (rotate (s[d] ^^^ s[a]) 8)
  let s := s.set c (s[c] + s[d])
  s.set b (rotate (s[b] ^^^ s[c]) 7)

/-- One round: the columns of the state, then its diagonals. -/
def round (s : Words) (m : Words) : Words :=
  let s := mix s 0 4 8 12 m[0] m[1]
  let s := mix s 1 5 9 13 m[2] m[3]
  let s := mix s 2 6 10 14 m[4] m[5]
  let s := mix s 3 7 11 15 m[6] m[7]
  let s := mix s 0 5 10 15 m[8] m[9]
  let s := mix s 1 6 11 12 m[10] m[11]
  let s := mix s 2 7 8 13 m[12] m[13]
  mix s 3 4 9 14 m[14] m[15]

/-- The order in which a round takes the words of the round before it. -/
def permute (m : Words) : Words :=
  #v[m[2], m[6], m[3], m[10], m[7], m[0], m[4], m[13], m[1], m[11], m[12], m[5], m[9], m[14],
    m[15], m[8]]

/-- A number of rounds, the message words permuted between them. -/
def rounds : Nat → Words → Words → Words
  | 0, s, _ => s
  | n + 1, s, m => rounds n (round s m) (permute m)

/-- What one compression works on. -/
structure Node where
  chain : Chain
  block : Words
  counter : UInt64
  blockLength : UInt32
  flags : UInt32

namespace Node

/-- The chaining value that a compression gives. -/
def compress (n : Node) : Chain :=
  let s : Words :=
    #v[n.chain[0], n.chain[1], n.chain[2], n.chain[3], n.chain[4], n.chain[5], n.chain[6],
      n.chain[7], start[0], start[1], start[2], start[3], n.counter.toUInt32,
      (n.counter >>> 32).toUInt32, n.blockLength, n.flags]
  let s := rounds 7 s n.block
  #v[s[0] ^^^ s[8], s[1] ^^^ s[9], s[2] ^^^ s[10], s[3] ^^^ s[11], s[4] ^^^ s[12],
    s[5] ^^^ s[13], s[6] ^^^ s[14], s[7] ^^^ s[15]]

/-- The node as the root of its tree. -/
def asRoot (n : Node) : Node :=
  { n with counter := 0, flags := n.flags ||| 8 }

end Node

/-- The word at a place of a block, least byte first; missing bytes are zero. -/
def wordAt (block : Array UInt8) (i : Nat) : UInt32 :=
  (block.getD (4 * i) 0).toUInt32 ||| ((block.getD (4 * i + 1) 0).toUInt32 <<< 8) |||
    ((block.getD (4 * i + 2) 0).toUInt32 <<< 16) ||| ((block.getD (4 * i + 3) 0).toUInt32 <<< 24)

/-- The words of a block of at most 64 bytes. -/
def blockWords (block : Array UInt8) : Words :=
  Vector.ofFn fun i => wordAt block i

/-- Cuts a list into pieces of a length, the last of them possibly shorter. -/
def pieces {α : Type} (length : Nat) : Nat → List α → List (List α)
  | 0, xs => [xs]
  | fuel + 1, xs =>
    if xs.length ≤ length then [xs] else xs.take length :: pieces length fuel (xs.drop length)

/-- Compresses the blocks of a chunk up to the last, which is left as a node. -/
def chunkBlocks (counter : UInt64) : Chain → UInt32 → List (List UInt8) → Node
  | chain, flags, [] => ⟨chain, blockWords #[], counter, 0, flags ||| 2⟩
  | chain, flags, [block] =>
    ⟨chain, blockWords block.toArray, counter, UInt32.ofNat block.length, flags ||| 2⟩
  | chain, flags, block :: rest =>
    let node : Node :=
      ⟨chain, blockWords block.toArray, counter, UInt32.ofNat block.length, flags⟩
    chunkBlocks counter node.compress 0 rest

/-- The node of a chunk. -/
def chunkNode (counter : Nat) (chunk : List UInt8) : Node :=
  chunkBlocks (UInt64.ofNat counter) start 1 (pieces 64 chunk.length chunk)

/-- The node above two subtrees. -/
def parent (left right : Node) : Node :=
  ⟨start, left.compress ++ right.compress, 0, 64, 4⟩

/-- The largest power of two below a number greater than one. -/
def leftSize (n : Nat) : Nat :=
  Number.twoPow (n - 1).log2

/-- The node of a tree over chunks, the first of which has the given number. -/
def treeNode : Nat → Nat → List (List UInt8) → Node
  | _, first, [] => chunkNode first []
  | _, first, [chunk] => chunkNode first chunk
  | 0, first, chunk :: _ => chunkNode first chunk
  | fuel + 1, first, chunks =>
    let left := leftSize chunks.length
    parent (treeNode fuel first (chunks.take left))
      (treeNode fuel (first + left) (chunks.drop left))

/-- The four bytes of a word, least first. -/
def wordBytes (w : UInt32) : List UInt8 :=
  [w.toUInt8, (w >>> 8).toUInt8, (w >>> 16).toUInt8, (w >>> 24).toUInt8]

/-- The bytes of a chaining value. -/
def chainBytes (chain : Chain) : List UInt8 :=
  chain.toList.flatMap wordBytes

/-- The digest of a message. -/
def digest (message : List UInt8) : List UInt8 :=
  let chunks := pieces 1024 message.length message
  chainBytes (treeNode chunks.length 0 chunks).asRoot.compress

theorem length_chainBytes (chain : Chain) : (chainBytes chain).length = 32 := by
  simp [chainBytes, wordBytes, List.length_flatMap, List.map_const']

theorem length_digest (message : List UInt8) : (digest message).length = 32 :=
  length_chainBytes _

end JobRegistry.Blake3
